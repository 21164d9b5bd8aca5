import RingQueue.Policy
import RingQueue.Ring.Basic

/-!
What a thread does inside a call, one access to the shared cursors or slots at a time.

A `Point` says which access comes next; `advance` makes it. Accesses take effect at once and in one
order for all threads. A thread that has to wait makes the same access again.
-/
namespace RingQueue.Protocol

variable {α : Type}

structure Push (α : Type) where
  policy : OverflowPolicy
  -- What the constructor makes.
  value : α
  -- The constructor breaks off instead.
  breaksOff : Bool
  -- A push that was turned down is made again until it is not.
  persists : Bool

inductive Request (α : Type) where
  | push (push : Push α)
  | pop
  -- Pops, again and again, until there is an entry.
  | popWaiting
  | peek
  | duplicate
  | len

inductive Response (α : Type) where
  | stored (evicted : Option α)
  | turnedDown (value : α)
  | brokeOff
  | popped (entry : Option α)
  | peeked (entry : Option α)
  | duplicated (entries : List α)
  | length (n : Nat)

/-- Why an entry is extracted. -/
inductive Errand (α : Type) where
  | pop
  | popWaiting
  -- To make room for a push; `kept` is the entry that it evicted before.
  | evict (push : Push α) (kept : Option α)

/-- Why the front is pinned. -/
inductive Visit where
  | peek
  | duplicate
  deriving DecidableEq, Repr

/-- The access that a thread makes next. -/
inductive Point (α : Type) where
  -- None; the thread is between two calls.
  | idle
  -- Raises `size`; there is room if it was below the capacity.
  | raiseSize (push : Push α) (kept : Option α)
  -- Lowers `size` again after an attempt that found no room.
  | undoRaise (push : Push α) (kept : Option α)
  -- Has room and runs the constructor.
  | construct (push : Push α) (kept : Option α)
  -- Lowers `size` because the constructor broke off.
  | returnRoom (push : Push α) (kept : Option α)
  -- Claims the position `write`.
  | claim (push : Push α) (kept : Option α)
  -- Looks whether the slot of its position is vacant.
  | awaitSlot (position : Nat) (push : Push α) (kept : Option α)
  -- Writes the slot.
  | fillSlot (position : Nat) (push : Push α) (kept : Option α)
  -- Looks whether all positions below are published.
  | awaitTurn (position : Nat) (push : Push α) (kept : Option α)
  -- Moves `visible` past its position.
  | publish (position : Nat) (push : Push α) (kept : Option α)
  -- Looks where the front is.
  | findFront (errand : Errand α)
  -- Looks whether the front is published.
  | checkFront (position : Nat) (errand : Errand α)
  -- Moves `read` past the position if it is still there.
  | takeFront (position : Nat) (errand : Errand α)
  -- Empties the slot.
  | emptySlot (position : Nat) (errand : Errand α)
  -- Looks whether all slots below are left.
  | awaitLeave (position : Nat) (entry : α) (errand : Errand α)
  -- Moves `freed` past its position.
  | leaveSlot (position : Nat) (entry : α) (errand : Errand α)
  -- Lowers `size` after an extraction.
  | lowerSize (entry : α) (errand : Errand α)
  -- Looks where the front is, in order to pin it.
  | findPin (visit : Visit)
  -- Pins the front if it is still there.
  | setPin (position : Nat) (visit : Visit)
  -- Looks how far the published positions go.
  | checkPinned (position : Nat) (visit : Visit)
  -- Clones the slots from `next` to `stop`, one at a time; `clones` holds the newest first.
  | cloneSlot (position next stop : Nat) (clones : List α) (visit : Visit)
  -- Ends the pin; `clones` holds the oldest first.
  | clearPin (position : Nat) (clones : List α) (visit : Visit)
  -- Looks at `size`.
  | readSize

/-- What an access means for the history of the queue. -/
inductive Act (α : Type) where
  | called
  | admitted
  | claimed (position : Nat) (value : α)
  | published (position : Nat)
  | extracted (position : Nat)
  | emptied (position : Nat) (entry : α)
  | released (position : Nat)
  | dropped (entry : α)
  | answered (response : Response α)

structure Move (α : Type) where
  ring : Ring α
  point : Point α
  acts : List (Act α)

def Request.start : Request α → Point α
  | push p => .raiseSize p none
  | pop => .findFront .pop
  | popWaiting => .findFront .popWaiting
  | peek => .findPin .peek
  | duplicate => .findPin .duplicate
  | len => .readSize

/-- An entry that a forced push evicted, but will not hand out, is dropped. -/
def dropActs : Option α → List (Act α)
  | none => []
  | some a => [.dropped a]

/-- Where an attempt that found no room leads. -/
def afterRefusal (r : Ring α) (p : Push α) (kept : Option α) : Move α :=
  match p.policy with
  | .block => ⟨r, .raiseSize p kept, []⟩
  | .overwrite => ⟨r, .findFront (.evict p kept), []⟩
  | .reject =>
    if p.persists then ⟨r, .raiseSize p kept, []⟩
    else ⟨r, .idle, [.answered (.turnedDown p.value)]⟩

/-- Where an extraction that found nothing leads. -/
def afterNothing (r : Ring α) : Errand α → Move α
  | .pop => ⟨r, .idle, [.answered (.popped none)]⟩
  | .popWaiting => ⟨r, .findFront .popWaiting, []⟩
  | .evict p kept => ⟨r, .raiseSize p kept, []⟩

/-- Where a complete extraction leads. Of several entries evicted by one push the first is kept. -/
def afterExtraction (r : Ring α) (a : α) : Errand α → Move α
  | .pop => ⟨r, .idle, [.answered (.popped (some a))]⟩
  | .popWaiting => ⟨r, .idle, [.answered (.popped (some a))]⟩
  | .evict p none => ⟨r, .raiseSize p (some a), []⟩
  | .evict p (some kept) => ⟨r, .raiseSize p (some kept), [.dropped a]⟩

def Visit.response (clones : List α) : Visit → Response α
  | peek => .peeked clones.head?
  | duplicate => .duplicated clones

def advance (r : Ring α) : Point α → Move α
  | .idle => ⟨r, .idle, []⟩
  | .raiseSize p kept =>
    -- One access: it raises `size` and looks at the old value.
    let raised := { r with size := r.size + 1 }
    if r.size < r.capacity then ⟨raised, .construct p kept, [.admitted]⟩
    else ⟨raised, .undoRaise p kept, []⟩
  | .undoRaise p kept => afterRefusal { r with size := r.size - 1 } p kept
  | .construct p kept => ⟨r, if p.breaksOff then .returnRoom p kept else .claim p kept, []⟩
  | .returnRoom _ kept =>
    ⟨{ r with size := r.size - 1 }, .idle, dropActs kept ++ [.answered .brokeOff]⟩
  | .claim p kept =>
    ⟨{ r with write := r.write + 1 }, .awaitSlot r.write p kept, [.claimed r.write p.value]⟩
  | .awaitSlot position p kept =>
    ⟨r, if r.slotIsFree position then .fillSlot position p kept else .awaitSlot position p kept, []⟩
  | .fillSlot position p kept =>
    ⟨{ r with slots := r.setSlot position (some p.value) }, .awaitTurn position p kept, []⟩
  | .awaitTurn position p kept =>
    ⟨r, if r.visible = position then .publish position p kept else .awaitTurn position p kept, []⟩
  | .publish position _ kept =>
    ⟨{ r with visible := position + 1 }, .idle,
      [.published position, .answered (.stored kept)]⟩
  | .findFront errand =>
    match r.read with
    | .pinned => ⟨r, .findFront errand, []⟩
    | .next position => ⟨r, .checkFront position errand, []⟩
  | .checkFront position errand =>
    if r.visible ≤ position then afterNothing r errand else ⟨r, .takeFront position errand, []⟩
  | .takeFront position errand =>
    -- Another thread may have taken the front in the meantime.
    if r.read = .next position then
      ⟨{ r with read := .next (position + 1) }, .emptySlot position errand, [.extracted position]⟩
    else ⟨r, .findFront errand, []⟩
  | .emptySlot position errand =>
    match r.entry position with
    | none => ⟨r, .emptySlot position errand, []⟩
    | some a =>
      ⟨{ r with slots := r.setSlot position none }, .awaitLeave position a errand,
        [.emptied position a]⟩
  | .awaitLeave position a errand =>
    ⟨r, if r.freed = position then .leaveSlot position a errand else
      .awaitLeave position a errand, []⟩
  | .leaveSlot position a errand =>
    ⟨{ r with freed := position + 1 }, .lowerSize a errand, [.released position]⟩
  | .lowerSize a errand => afterExtraction { r with size := r.size - 1 } a errand
  | .findPin visit =>
    match r.read with
    | .pinned => ⟨r, .findPin visit, []⟩
    | .next position => ⟨r, .setPin position visit, []⟩
  | .setPin position visit =>
    if r.read = .next position then ⟨{ r with read := .pinned }, .checkPinned position visit, []⟩
    else ⟨r, .findPin visit, []⟩
  | .checkPinned position visit =>
    let stop :=
      match visit with
      | .peek => min r.visible (position + 1)
      | .duplicate => r.visible
    ⟨r, .cloneSlot position position stop [] visit, []⟩
  | .cloneSlot position next stop clones visit =>
    if stop ≤ next then ⟨r, .clearPin position clones.reverse visit, []⟩
    else
      match r.entry next with
      | none => ⟨r, .cloneSlot position next stop clones visit, []⟩
      | some a => ⟨r, .cloneSlot position (next + 1) stop (a :: clones) visit, []⟩
  | .clearPin position clones visit =>
    ⟨{ r with read := .next position }, .idle, [.answered (visit.response clones)]⟩
  | .readSize => ⟨r, .idle, [.answered (.length r.len)]⟩

/-- The points at which a call begins an attempt; a thread may be interrupted anywhere, but here it
holds nothing that others wait for. -/
def Point.beginsAttempt : Point α → Bool
  | .idle => true
  | .raiseSize _ _ => true
  | .findFront _ => true
  | .findPin _ => true
  | _ => false

/-- The points at which the thread only looks again at something that another thread changes. -/
def Point.isWait : Point α → Bool
  | .awaitSlot _ _ _ => true
  | .awaitTurn _ _ _ => true
  | .awaitLeave _ _ _ => true
  | _ => false

end RingQueue.Protocol
