import Mathlib.Tactic.Common
import RingQueue.Proofs.Protocol.Turns

/-!
What threads hold of a ring, and how one access changes it.

Of all the points of a call only seven kinds matter to the others: a `Stage` says whether the thread
has raised the count, owns a position, or holds the pin. `Shift` lists the changes of stage with the
cursor or slot that changes along with each; every access is one of them (`Turn.shift`). What holds
of all shifts therefore holds of every step of every thread.
-/
namespace RingQueue.Protocol

variable {α : Type}

inductive Stage (α : Type) where
  -- Holds nothing.
  | free
  -- Has raised the count without finding room.
  | failed
  -- Has room, but no position yet.
  | admitted
  -- Owns a position that is not published; `filled` tells whether its slot is written.
  | claimed (position : Nat) (value : α) (filled : Bool)
  -- Has extracted a position; `taken` is the entry once it is out of its slot.
  | extracting (position : Nat) (taken : Option α)
  -- Has left its slot and still counts.
  | leaving
  | pinning (position : Nat)

def Point.stage : Point α → Stage α
  | .undoRaise _ _ => .failed
  | .construct _ _ | .returnRoom _ _ | .claim _ _ => .admitted
  | .awaitSlot position push _ | .fillSlot position push _ => .claimed position push.value false
  | .awaitTurn position push _ | .publish position push _ => .claimed position push.value true
  | .emptySlot position _ => .extracting position none
  | .awaitLeave position entry _ | .leaveSlot position entry _ => .extracting position (some entry)
  | .lowerSize _ _ => .leaving
  | .checkPinned position _ | .cloneSlot position _ _ _ _ | .clearPin position _ _ =>
    .pinning position
  | _ => .free

/-- What a thread has found out and nobody else can undo. -/
def Point.Knows (front : Nat) (r : Ring α) : Point α → Prop
  | .checkFront position _ => position ≤ front
  | .takeFront position _ => position ≤ front ∧ position < r.visible
  | .publish position _ _ => r.visible = position
  | .leaveSlot position _ _ => r.freed = position
  | .cloneSlot _ _ stop _ _ => stop ≤ r.visible
  | _ => True

/-- Acts that move a cursor or a slot. -/
def Act.isCursor : Act α → Bool
  | claimed _ _ | published _ | extracted _ | emptied _ _ | released _ => true
  | _ => false

/-- The changes of stage. The last part tells the acts that move a cursor or a slot. -/
inductive Shift (r : Ring α) : Stage α → Ring α → Stage α → List (Act α) → Prop
  | stay (stage : Stage α) : Shift r stage r stage []
  | enter : r.size < r.capacity → Shift r .free { r with size := r.size + 1 } .admitted []
  | overshoot : r.capacity ≤ r.size → Shift r .free { r with size := r.size + 1 } .failed []
  | undo : Shift r .failed { r with size := r.size - 1 } .free []
  | giveBack : Shift r .admitted { r with size := r.size - 1 } .free []
  | claim (a : α) :
    Shift r .admitted { r with write := r.write + 1 } (.claimed r.write a false)
      [.claimed r.write a]
  | fill (position : Nat) (a : α) :
    Shift r (.claimed position a false) { r with slots := r.setSlot position (some a) }
      (.claimed position a true) []
  | publish (position : Nat) (a : α) : r.visible = position →
    Shift r (.claimed position a true) { r with visible := position + 1 } .free
      [.published position]
  | extract (position : Nat) : r.read = .next position → position < r.visible →
    Shift r .free { r with read := .next (position + 1) } (.extracting position none)
      [.extracted position]
  | empty (position : Nat) (a : α) : r.entry position = some a →
    Shift r (.extracting position none) { r with slots := r.setSlot position none }
      (.extracting position (some a)) [.emptied position a]
  | leave (position : Nat) (a : α) : r.freed = position →
    Shift r (.extracting position (some a)) { r with freed := position + 1 } .leaving
      [.released position]
  | lower : Shift r .leaving { r with size := r.size - 1 } .free []
  | pin (position : Nat) : r.read = .next position →
    Shift r .free { r with read := .pinned } (.pinning position) []
  | unpin (position : Nat) :
    Shift r (.pinning position) { r with read := .next position } .free []

/-- A thread that knows what it found out changes its stage by a shift. -/
theorem Turn.shift {front : Nat} {r ring : Ring α} {thread thread' : Thread α} {acts : List (Act α)}
    (h : Turn r thread ring thread' acts) (knows : thread.point.Knows front r) :
    Shift r thread.point.stage ring thread'.point.stage (acts.filter Act.isCursor) := by
  cases h with
  | call request todo answers => cases request <;> exact .stay .free
  | access todo answers leads =>
    cases leads with
    | wait point => exact .stay _
    | room push kept below => exact .enter below
    | noRoom push kept full => exact .overshoot full
    | again | evict | turnDown => exact .undo
    | constructed | breakOff => exact .stay .admitted
    | giveUp push kept => cases kept <;> exact .giveBack
    | claim push kept => exact .claim push.value
    | slotFree | onTurn => exact .stay _
    | fill position push kept => exact .fill position push.value
    | publish position push kept => exact .publish position push.value knows
    | front | popNothing | awaitEntry | evictNothing | unread | missTake => exact .stay .free
    | extract position errand read => exact .extract position read knows.2
    | empty position errand a entry => exact .empty position a entry
    | mayLeave => exact .stay _
    | leave position a errand => exact .leave position a knows
    | handOut | handOver | keep | drop => exact .lower
    | pinAt | missPin => exact .stay .free
    | pin position visit read => exact .pin position read
    | look | clone | cloned => exact .stay _
    | unpin position clones visit => exact .unpin position
    | size => exact .stay .free

end RingQueue.Protocol
