import RingQueue.Ring.Access
import RingQueue.Ring.Whole

/-!
The ring in machine words: cursors are words of 64 bits, and the greatest word in `read` says that
the front is pinned.

Additions and subtractions wrap around, so this is the ring of `Ring.Basic` only as long as no
cursor reaches the greatest word. `toRing` reads the words as numbers; the operations are those on a
ring, written with words.
-/
namespace RingQueue

structure WordRing (α : Type) where
  capacity : UInt64
  slots : Slots α
  size : UInt64
  write : UInt64
  visible : UInt64
  read : UInt64
  freed : UInt64

namespace WordRing

variable {α β : Type}

/-- The word that marks a pinned front. -/
def pinMark : UInt64 := 18446744073709551615

/-- The numbers that the words stand for. -/
def toRing (w : WordRing α) : Ring α where
  capacity := w.capacity.toNat
  slots := w.slots
  size := w.size.toNat
  write := w.write.toNat
  visible := w.visible.toNat
  read := if w.read = pinMark then .pinned else .next w.read.toNat
  freed := w.freed.toNat

def slotOf (w : WordRing α) (position : UInt64) : Nat := (position % w.capacity).toNat

def entry (w : WordRing α) (position : UInt64) : Option α := w.slots.get (w.slotOf position)

def setSlot (w : WordRing α) (position : UInt64) (content : Option α) : Slots α :=
  w.slots.set (w.slotOf position) content

def len (w : WordRing α) : UInt64 := if w.capacity < w.size then w.capacity else w.size

def unreadCount (w : WordRing α) : UInt64 := w.visible - w.read

def unreadBatch (w : WordRing α) : Batch α :=
  ⟨w.unreadCount.toNat, fun i => w.entry (w.read + UInt64.ofNat i)⟩

/-- The oldest published entry, for a caller whom no other handle can disturb. -/
def front? (w : WordRing α) : Option α := if w.read < w.visible then w.entry w.read else none

/-- Before a ring is rebuilt every claimed position has been published. -/
def atRest (w : WordRing α) : Bool := w.visible = w.write

def ofBatch (capacity : UInt64) (entries : Batch α) : WordRing α where
  capacity := capacity
  slots := .ofFn fun slot => if slot < entries.count then entries.entry slot else none
  size := UInt64.ofNat entries.count
  write := UInt64.ofNat entries.count
  visible := UInt64.ofNat entries.count
  read := 0
  freed := 0

def empty (capacity : UInt64) : WordRing α := ofBatch capacity .empty

def create (k : EntryKind α) (capacity : UInt64) : Except Fault (WordRing α) :=
  match k.checkSlots capacity.toNat with
  | .error fault => .error fault
  | .ok () => .ok (empty capacity)

/-- A full ring: clones of an entry, and the entry itself in the last place. -/
def filled (k : EntryKind α) (capacity : UInt64) (a : α) : Except Fault (WordRing α) :=
  match k.checkSlots capacity.toNat with
  | .error fault => .error fault
  | .ok () =>
    let clones := k.cloning.cloneAll (.replicate (capacity - 1).toNat a)
    match clones.fault with
    | some fault => .error fault
    | none =>
      let entries : Batch α :=
        ⟨capacity.toNat, fun i => if i + 1 = capacity.toNat then some a else clones.made.entry i⟩
      .ok (ofBatch capacity entries)

/-! ## The steps of an entry -/

/-- Raises `size` first and lowers it again when there was no room. -/
def tryAdmission (w : WordRing α) : Bool × WordRing α :=
  -- Lowering undoes the raise also where it wrapped around.
  let raised := { w with size := w.size + 1 }
  if w.capacity ≤ w.size then (false, { raised with size := raised.size - 1 }) else (true, raised)

def returnAdmission (w : WordRing α) : WordRing α := { w with size := w.size - 1 }

def slotIsFree (w : WordRing α) (position : UInt64) : Bool :=
  position < w.capacity || position - w.capacity < w.freed

def publish (w : WordRing α) (a : α) : Option (WordRing α) :=
  if w.slotIsFree w.write && w.visible = w.write then
    some { w with
      slots := w.setSlot w.write (some a), write := w.write + 1, visible := w.write + 1 }
  else none

def takeFront (w : WordRing α) : Option (Option α × WordRing α) :=
  -- The mark comes first: as a position it would be the greatest of all.
  if w.read = pinMark then none
  else if w.visible ≤ w.read then some (none, w)
  else if w.freed = w.read then
    some (w.entry w.read,
      { w with
        slots := w.setSlot w.read none
        read := w.read + 1
        freed := w.read + 1
        size := w.size - 1 })
  else none

def pin (w : WordRing α) : Option (UInt64 × WordRing α) :=
  if w.read = pinMark then none else some (w.read, { w with read := pinMark })

def unpin (w : WordRing α) (position : UInt64) : WordRing α := { w with read := position }

/-! ## Calls -/

def evictUntilRoom : Nat → Option α → WordRing α → Outcome (Room α) × WordRing α
  | 0, _, w => (.waiting, w)
  | turns + 1, kept, w =>
    match w.tryAdmission with
    | (true, w) => (.returned (.granted kept), w)
    | (false, w) =>
      match w.takeFront with
      | some (some victim, w) => evictUntilRoom turns (kept <|> some victim) w
      | _ => (.waiting, w)

def request (policy : OverflowPolicy) (w : WordRing α) : Outcome (Room α) × WordRing α :=
  match policy with
  | .overwrite => evictUntilRoom (w.unreadCount.toNat + 1) none w
  | .reject =>
    match w.tryAdmission with
    | (true, w) => (.returned (.granted none), w)
    | (false, w) => (.returned .denied, w)
  | .block =>
    match w.tryAdmission with
    | (true, w) => (.returned (.granted none), w)
    | (false, w) => (.waiting, w)

def settle (evicted : Option α) (made : Except Fault α) (w : WordRing α) :
    Outcome (Pushed α) × WordRing α :=
  match made with
  | .ok a =>
    match w.publish a with
    | some w => (.returned (.stored evicted), w)
    | none => (.waiting, w)
  | .error fault => (.aborted fault, w.returnAdmission)

def emplace (policy : OverflowPolicy) (make : Unit → Except Fault α) (w : WordRing α) :
    Outcome (Pushed α) × WordRing α :=
  match w.request policy with
  | (.returned .denied, w) => (.returned .denied, w)
  | (.returned (.granted evicted), w) => w.settle evicted (make ())
  | (.aborted fault, w) => (.aborted fault, w)
  | (.waiting, w) => (.waiting, w)

def push (policy : OverflowPolicy) (a : α) (w : WordRing α) : Outcome (Pushed α) × WordRing α :=
  w.emplace policy fun _ => .ok a

def popFront (w : WordRing α) : Outcome (Option α) × WordRing α :=
  match w.takeFront with
  | some (a, w) => (.returned a, w)
  | none => (.waiting, w)

def popMany (done : List α) : Nat → WordRing α → Outcome (List α) × WordRing α
  | 0, w => (.returned done.reverse, w)
  | limit + 1, w =>
    match w.takeFront with
    | none => (.waiting, w)
    | some (none, w) => (.returned done.reverse, w)
    | some (some a, w) => popMany (a :: done) limit w

def drain (limit : Option Nat) (w : WordRing α) : Outcome (List α) × WordRing α :=
  popMany [] (limit.getD w.unreadCount.toNat) w

def peek (look : α → Except Fault β) (w : WordRing α) : Outcome (Option β) × WordRing α :=
  match w.pin with
  | none => (.waiting, w)
  | some (position, held) =>
    if held.visible ≤ position then (.returned none, held.unpin position)
    else
      match held.entry position with
      | none => (.returned none, held.unpin position)
      | some a =>
        match look a with
        | .ok b => (.returned (some b), held.unpin position)
        | .error fault => (.aborted fault, held.unpin position)

def duplicate (k : EntryKind α) (w : WordRing α) : Outcome (WordRing α) × WordRing α :=
  match w.pin with
  | none => (.waiting, w)
  | some (position, held) =>
    let unread : Batch α :=
      ⟨(held.visible - position).toNat, fun i => held.entry (position + UInt64.ofNat i)⟩
    let clones := k.cloning.cloneAll unread
    match clones.fault with
    | some fault => (.aborted fault, held.unpin position)
    | none => (.returned (ofBatch w.capacity clones.made), held.unpin position)

def reserve (k : EntryKind α) (capacity : UInt64) (w : WordRing α) : Outcome Unit × WordRing α :=
  if capacity ≤ w.capacity then (.returned (), w)
  else
    match k.checkSlots capacity.toNat with
    | .error fault => (.aborted fault, w)
    | .ok () => (.returned (), ofBatch capacity w.unreadBatch)

def clear (k : EntryKind α) (w : WordRing α) : Outcome Unit × WordRing α :=
  match (k.dropAll w.unreadBatch).fault with
  | some fault => (.aborted fault, w)
  | none => (.returned (), empty w.capacity)

/-- What breaks off when a ring that nobody holds any more drops its unread entries. -/
def release (k : EntryKind α) (w : WordRing α) : Option Fault := (k.dropAll w.unreadBatch).fault

end WordRing

end RingQueue
