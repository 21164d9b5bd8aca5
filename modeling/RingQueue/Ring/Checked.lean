import RingQueue.Ring.Storage

/-!
The ring in machine words with its arithmetic looked at.

Where the ring in words would wrap around, divide by nothing, take a position for the mark of a
pinned front or leave a claimed position out of its live range, the operation breaks off with a
flaw. Apart from that, each operation is the one of the same name on words.
-/
namespace RingQueue

/-- What can go wrong in the arithmetic of a ring. -/
inductive Flaw where
  -- The sum is greater than all words.
  | sum
  -- More is taken away than there is.
  | difference
  -- A position is divided by no slots.
  | divisor
  -- A position to be stored in `read` is the mark of a pinned front.
  | mark
  -- The ring is rebuilt or dropped while a claimed position has not been published.
  | unpublished
  deriving DecidableEq, Repr

namespace Checked

variable {α β : Type}

/-! ## Words -/

def plus (a b : UInt64) : Except Flaw UInt64 :=
  if a.toNat + b.toNat < UInt64.size then .ok (a + b) else .error .sum

def minus (a b : UInt64) : Except Flaw UInt64 := if b ≤ a then .ok (a - b) else .error .difference

/-- A position that may be stored in `read`. -/
def unmarked (position : UInt64) : Except Flaw UInt64 :=
  if position = WordRing.pinMark then .error .mark else .ok position

def slotOf (w : WordRing α) (position : UInt64) : Except Flaw Nat :=
  if w.capacity = 0 then .error .divisor else .ok (w.slotOf position)

def entry (w : WordRing α) (position : UInt64) : Except Flaw (Option α) := do
  let slot ← slotOf w position
  return w.slots.get slot

def setSlot (w : WordRing α) (position : UInt64) (content : Option α) : Except Flaw (Slots α) := do
  let slot ← slotOf w position
  return w.slots.set slot content

/-- The contents of a range of positions. -/
def contents (w : WordRing α) (live : Span) : Except Flaw (Batch α) := do
  let found ← live.positions.mapM (entry w)
  return ⟨found.length, fun i => found[i]?.join⟩

/-- The live positions, for a caller whom no other handle can disturb. -/
def liveRange (w : WordRing α) : Except Flaw Span :=
  if w.atRest then .ok w.live else .error .unpublished

def front? (w : WordRing α) : Except Flaw (Option α) :=
  if w.read < w.visible then entry w w.read else .ok none

/-! ## New rings -/

/-- Writes the entries of a batch to the first positions of a new ring. -/
def prefilled (capacity : UInt64) (entries : Batch α) : Except Flaw (WordRing α) :=
  if capacity = 0 then .error .divisor else .ok (.ofBatch capacity entries)

def filled (k : EntryKind α) (capacity : UInt64) (a : α) :
    Except Flaw (Except Fault (WordRing α)) := do
  match k.checkSlots capacity.toNat with
  | .error fault => return .error fault
  | .ok () =>
    let last ← minus capacity 1
    let clones := k.cloning.cloneAll (.replicate last.toNat a)
    match clones.fault with
    | some fault => return .error fault
    | none =>
      let ring ← prefilled capacity
        ⟨capacity.toNat, fun i => if i + 1 = capacity.toNat then some a else clones.made.entry i⟩
      return .ok ring

/-! ## The steps of an entry -/

def tryAdmission (w : WordRing α) : Except Flaw (Bool × WordRing α) := do
  let raised ← plus w.size 1
  if w.capacity ≤ w.size then
    let lowered ← minus raised 1
    return (false, { w with size := lowered })
  else return (true, { w with size := raised })

def returnAdmission (w : WordRing α) : Except Flaw (WordRing α) := do
  let size ← minus w.size 1
  return { w with size }

def publish (w : WordRing α) (a : α) : Except Flaw (Option (WordRing α)) := do
  let write ← plus w.write 1
  if w.slotIsFree w.write && w.visible = w.write then
    let slots ← setSlot w w.write (some a)
    let visible ← plus w.write 1
    return some { w with slots, write, visible }
  else return none

def takeFront (w : WordRing α) : Except Flaw (Option (Option α × WordRing α)) := do
  if w.read = WordRing.pinMark then return none
  else if w.visible ≤ w.read then return some (none, w)
  else
    let next ← plus w.read 1
    let read ← unmarked next
    if w.freed = w.read then
      let taken ← entry w w.read
      let slots ← setSlot w w.read none
      let freed ← plus w.read 1
      let size ← minus w.size 1
      return some (taken, { w with slots, read, freed, size })
    else return none

def unpin (w : WordRing α) (position : UInt64) : Except Flaw (WordRing α) := do
  let read ← unmarked position
  return w.unpin read

/-! ## Calls

The number of turns of a loop is not computed by the ring; it only says that the loop ends. -/

def evictUntilRoom : Nat → Option α → WordRing α → Except Flaw (Outcome (Room α) × WordRing α)
  | 0, _, w => return (.waiting, w)
  | turns + 1, kept, w => do
    match ← tryAdmission w with
    | (true, w) => return (.returned (.granted kept), w)
    | (false, w) =>
      match ← takeFront w with
      | some (some victim, w) => evictUntilRoom turns (kept <|> some victim) w
      | _ => return (.waiting, w)

def request (policy : OverflowPolicy) (w : WordRing α) :
    Except Flaw (Outcome (Room α) × WordRing α) := do
  match policy with
  | .overwrite => evictUntilRoom (w.unreadCount.toNat + 1) none w
  | .reject =>
    match ← tryAdmission w with
    | (true, w) => return (.returned (.granted none), w)
    | (false, w) => return (.returned .denied, w)
  | .block =>
    match ← tryAdmission w with
    | (true, w) => return (.returned (.granted none), w)
    | (false, w) => return (.waiting, w)

def settle (evicted : Option α) (made : Except Fault α) (w : WordRing α) :
    Except Flaw (Outcome (Pushed α) × WordRing α) := do
  match made with
  | .ok a =>
    match ← publish w a with
    | some w => return (.returned (.stored evicted), w)
    | none => return (.waiting, w)
  | .error fault =>
    let w ← returnAdmission w
    return (.aborted fault, w)

def popFront (w : WordRing α) : Except Flaw (Outcome (Option α) × WordRing α) := do
  match ← takeFront w with
  | some (a, w) => return (.returned a, w)
  | none => return (.waiting, w)

def popMany (done : List α) : Nat → WordRing α → Except Flaw (Outcome (List α) × WordRing α)
  | 0, w => return (.returned done.reverse, w)
  | limit + 1, w => do
    match ← takeFront w with
    | none => return (.waiting, w)
    | some (none, w) => return (.returned done.reverse, w)
    | some (some a, w) => popMany (a :: done) limit w

def drain (limit : Option Nat) (w : WordRing α) : Except Flaw (Outcome (List α) × WordRing α) :=
  popMany [] (limit.getD w.unreadCount.toNat) w

def peek (look : α → Except Fault β) (w : WordRing α) :
    Except Flaw (Outcome (Option β) × WordRing α) := do
  match w.pin with
  | none => return (.waiting, w)
  | some (position, held) =>
    let unpinned ← unpin held position
    if held.visible ≤ position then return (.returned none, unpinned)
    else
      match ← entry held position with
      | none => return (.returned none, unpinned)
      | some a =>
        match look a with
        | .ok b => return (.returned (some b), unpinned)
        | .error fault => return (.aborted fault, unpinned)

def duplicate (k : EntryKind α) (w : WordRing α) :
    Except Flaw (Outcome (WordRing α) × WordRing α) := do
  match w.pin with
  | none => return (.waiting, w)
  | some (position, held) =>
    let unread ← contents held ⟨position, held.visible⟩
    let unpinned ← unpin held position
    let clones := k.cloning.cloneAll unread
    match clones.fault with
    | some fault => return (.aborted fault, unpinned)
    | none =>
      let copy ← prefilled w.capacity clones.made
      return (.returned copy, unpinned)

def reserve (k : EntryKind α) (capacity : UInt64) (w : WordRing α) :
    Except Flaw (Outcome Unit × WordRing α) := do
  if capacity ≤ w.capacity then return (.returned (), w)
  else
    let live ← liveRange w
    let len ← minus live.stop live.start
    match k.checkSlots capacity.toNat with
    | .error fault => return (.aborted fault, w)
    | .ok () =>
      let entries ← contents w live
      return (.returned (),
        { WordRing.ofBatch capacity entries with size := len, write := len, visible := len })

def clear (k : EntryKind α) (w : WordRing α) : Except Flaw (Outcome Unit × WordRing α) := do
  let live ← liveRange w
  -- How many entries are dropped is reported.
  let _ ← minus live.stop live.start
  let entries ← contents w live
  match (k.dropAll entries).fault with
  | some fault => return (.aborted fault, w)
  | none => return (.returned (), .empty w.capacity)

def release (k : EntryKind α) (w : WordRing α) : Except Flaw (Option Fault) := do
  let live ← liveRange w
  let entries ← contents w live
  return (k.dropAll entries).fault

end Checked

end RingQueue
