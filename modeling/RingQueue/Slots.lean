import Std.Data.TreeMap

/-!
The slots of a ring: what each of them held at first, and what has been written since.

Slots that were never written take no room, so that a ring may have billions of them.
-/
namespace RingQueue

structure Slots (α : Type) where
  -- The first content of each slot; a vacant slot has none.
  initial : Nat → Option α
  -- The contents that were written last.
  written : Std.TreeMap Nat (Option α)

namespace Slots

variable {α : Type}

/-- Slots of which nothing but the first content is known. -/
def ofFn (initial : Nat → Option α) : Slots α := ⟨initial, ∅⟩

def get (s : Slots α) (slot : Nat) : Option α := s.written.getD slot (s.initial slot)

def set (s : Slots α) (slot : Nat) (content : Option α) : Slots α :=
  { s with written := s.written.insert slot content }

@[simp] theorem get_ofFn (initial : Nat → Option α) (slot : Nat) :
    (ofFn initial).get slot = initial slot := by
  simp [get, ofFn]

/-- Writing a slot changes this slot only. -/
theorem get_set (s : Slots α) (slot other : Nat) (content : Option α) :
    (s.set slot content).get other = if other = slot then content else s.get other := by
  simp only [get, set, Std.TreeMap.getD_insert, Nat.compare_eq_eq]
  split <;> split <;> simp_all

@[simp] theorem get_set_self (s : Slots α) (slot : Nat) (content : Option α) :
    (s.set slot content).get slot = content := by
  simp [get_set]

end Slots

end RingQueue
