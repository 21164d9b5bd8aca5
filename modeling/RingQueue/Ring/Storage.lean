import RingQueue.Ring.Words

/-!
The block of slots in which the entries of a ring live.

A storage does not know which of its slots hold entries. Whoever rebuilds or clears a ring says
which positions are live, and a loop goes over them from the first to the last: to drop their
entries, or to move them to the first slots of a larger block.
-/
namespace RingQueue

/-- The positions from `start` up to, but not including, `stop`. -/
structure Span where
  start : UInt64
  stop : UInt64

namespace Span

instance : Membership UInt64 Span := ⟨fun live p => live.start ≤ p ∧ p < live.stop⟩

def length (live : Span) : Nat := live.stop.toNat - live.start.toNat

/-- The positions as a loop meets them: while the first stands before the end, it is next. -/
def positions (live : Span) : List UInt64 :=
  if live.start < live.stop then live.start :: positions ⟨live.start + 1, live.stop⟩ else []
termination_by live.length
decreasing_by
  rename_i before
  have below := UInt64.lt_iff_toNat_lt.mp before
  have bound := live.stop.toNat_lt
  simp only [length, UInt64.toNat_add, UInt64.toNat_one]
  omega

end Span

structure Storage (α : Type) where
  capacity : UInt64
  slots : Slots α

namespace Storage

variable {α : Type}

def slotOf (s : Storage α) (position : UInt64) : Nat := (position % s.capacity).toNat

def get (s : Storage α) (position : UInt64) : Option α := s.slots.get (s.slotOf position)

def write (position : UInt64) (a : α) (s : Storage α) : Storage α :=
  { s with slots := s.slots.set (s.slotOf position) (some a) }

/-- Moves the entry out of its slot, which is vacant then. -/
def take (position : UInt64) (s : Storage α) : Option α × Storage α :=
  (s.get position, { s with slots := s.slots.set (s.slotOf position) none })

def drop (position : UInt64) (s : Storage α) : Storage α := (s.take position).2

/-- Drops the entries of a row of positions; `dropped` holds those that were dropped before. -/
def dropAll (dropped : List (Option α)) (positions : List UInt64) (s : Storage α) :
    List (Option α) × Storage α :=
  positions.foldl (fun (dropped, s) position => (dropped ++ [s.get position], s.drop position))
    (dropped, s)

def dropRange (live : Span) (s : Storage α) : List (Option α) × Storage α :=
  s.dropAll [] live.positions

end Storage

/-- An entry went from a slot of one block to a slot of another. -/
structure Relocation where
  source : Nat
  target : Nat
  deriving DecidableEq, Repr

/-- Two blocks while entries move from the one to the other, and the moves made so far. -/
structure Moving (α : Type) where
  old : Storage α
  fresh : Storage α
  moves : List Relocation

namespace Moving

variable {α : Type}

def move (position : UInt64) (target : Nat) (m : Moving α) : Moving α where
  old := (m.old.take position).2
  fresh := { m.fresh with slots := m.fresh.slots.set target (m.old.take position).1 }
  moves := m.moves ++ [⟨m.old.slotOf position, target⟩]

/-- Moves the entries of a row of positions to one slot after the other, the first to `index`. -/
def moveAll (index : Nat) (positions : List UInt64) (m : Moving α) : Moving α :=
  (positions.zipIdx index).foldl (fun m (position, target) => m.move position target) m

end Moving

/-- Moves the entries of a range to the first slots of a new block. -/
def Storage.grow {α : Type} (k : EntryKind α) (capacity : UInt64) (live : Span) (s : Storage α) :
    Except Fault (Moving α) :=
  match k.checkSlots capacity.toNat with
  | .error fault => .error fault
  | .ok () => .ok (.moveAll 0 live.positions ⟨s, ⟨capacity, .ofFn fun _ => none⟩, []⟩)

namespace WordRing

variable {α : Type}

def storage (w : WordRing α) : Storage α := ⟨w.capacity, w.slots⟩

/-- The published positions that nobody has extracted. -/
def live (w : WordRing α) : Span := ⟨w.read, w.visible⟩

end WordRing

end RingQueue
