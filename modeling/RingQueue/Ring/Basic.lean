import RingQueue.Batch
import RingQueue.Slots

/-!
A ring: a fixed number of slots, and cursors that only move forward.

Positions count all entries that ever entered; position `p` lives in the slot `p % capacity`. An
entry passes three steps. It is admitted when `size` is raised below the capacity, it claims the
position `write`, and it is published when `visible` passes its position. Positions from `read` to
`visible` are unread. An extraction moves `read` past its position, empties the slot, moves `freed`
past the position and lowers `size`. While someone looks at the front, `read` is pinned and nothing
is extracted.
-/
namespace RingQueue

/-- Where the next extraction takes place. -/
inductive ReadCursor where
  | next (position : Nat)
  -- Someone looks at the entries; extraction has to wait.
  | pinned
  deriving DecidableEq, Repr

structure Ring (α : Type) where
  capacity : Nat
  slots : Slots α
  -- Entries admitted and not yet extracted.
  size : Nat
  -- The position that the next entry claims.
  write : Nat
  -- All positions below are published.
  visible : Nat
  read : ReadCursor
  -- The slots of all positions below are vacant again.
  freed : Nat

namespace Ring

variable {α : Type}

/-! ## Contents and observers -/

def slotOf (r : Ring α) (position : Nat) : Nat := position % r.capacity

def entry (r : Ring α) (position : Nat) : Option α := r.slots.get (r.slotOf position)

/-- The slots after the one of a position got a new content. -/
def setSlot (r : Ring α) (position : Nat) (content : Option α) : Slots α :=
  r.slots.set (r.slotOf position) content

/-- The oldest unread position. -/
def front (r : Ring α) : Nat :=
  match r.read with
  | .next position => position
  | .pinned => r.visible

def unreadCount (r : Ring α) : Nat := r.visible - r.front

/-- The unread entries, oldest first. -/
def unreadBatch (r : Ring α) : Batch α := ⟨r.unreadCount, fun i => r.entry (r.front + i)⟩

def unread (r : Ring α) : List α := r.unreadBatch.toList

/-- The number of admitted entries, including those not yet published. An attempt that is about to
be undone does not count. -/
def len (r : Ring α) : Nat := min r.size r.capacity

def isEmpty (r : Ring α) : Bool := r.len = 0

def isFull (r : Ring α) : Bool := r.len = r.capacity

/-- The oldest published entry, for a caller whom no other handle can disturb. -/
def front? (r : Ring α) : Option α :=
  match r.read with
  | .next position => if position < r.visible then r.entry position else none
  | .pinned => none

/-! ## Fresh rings -/

/-- A ring whose first slots hold the entries of a batch, all of them published and unread. -/
def ofBatch (capacity : Nat) (entries : Batch α) : Ring α where
  capacity := capacity
  slots := .ofFn fun slot => if slot < entries.count then entries.entry slot else none
  size := entries.count
  write := entries.count
  visible := entries.count
  read := .next 0
  freed := 0

def empty (capacity : Nat) : Ring α := ofBatch capacity .empty

/-! ## The steps of an entry -/

def tryAdmission (r : Ring α) : Option (Ring α) :=
  if r.size < r.capacity then some { r with size := r.size + 1 } else none

/-- Gives back the room of an admitted entry that will not be published. -/
def returnAdmission (r : Ring α) : Ring α := { r with size := r.size - 1 }

/-- Whether the slot of a claimed position has been left by the entry one round before. -/
def slotIsFree (r : Ring α) (position : Nat) : Bool :=
  position < r.capacity || position - r.capacity < r.freed

/-- Claims the next position for an admitted entry, writes and publishes it. Without an answer, the
call waits for the slot or for entries before it. -/
def publish (r : Ring α) (a : α) : Option (Ring α) :=
  if r.slotIsFree r.write && r.visible = r.write then
    some { r with
      slots := r.setSlot r.write (some a), write := r.write + 1, visible := r.write + 1 }
  else none

/-- Extracts the oldest published entry. Without an answer, the call waits for a pin to end or for
extractions before it. -/
def takeFront (r : Ring α) : Option (Option α × Ring α) :=
  match r.read with
  | .pinned => none
  | .next position =>
    if r.visible ≤ position then some (none, r)
    else if r.freed = position then
      some (r.entry position,
        { r with
          slots := r.setSlot position none
          read := .next (position + 1)
          freed := position + 1
          size := r.size - 1 })
    else none

/-- Pins the front: the position pinned, and the ring in which nothing is extracted. Without an
answer, the call waits for another pin to end. -/
def pin (r : Ring α) : Option (Nat × Ring α) :=
  match r.read with
  | .pinned => none
  | .next position => some (position, { r with read := .pinned })

def unpin (r : Ring α) (position : Nat) : Ring α := { r with read := .next position }

end Ring

end RingQueue
