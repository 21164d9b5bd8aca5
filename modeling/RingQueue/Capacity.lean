/-!
Capacities: how many slots a ring may have, and why a requested number is turned down.
-/
namespace RingQueue

/-- The largest number of slots of a ring. -/
def maxCapacity : Nat := 4294967294

/-- The number of slots of a ring for which none was asked. -/
def defaultCapacity : Nat := 16

inductive CapacityFault where
  | zero
  | tooLarge (requested : Nat)
  deriving DecidableEq, Repr

/-- A ring has at least one slot and at most `maxCapacity`; the lower bound is checked first. -/
def checkCapacity (capacity : Nat) : Except CapacityFault Unit :=
  if capacity = 0 then .error .zero
  else if maxCapacity < capacity then .error (.tooLarge capacity)
  else .ok ()

/-- The wording with which a constructor breaks off. -/
def CapacityFault.message : CapacityFault → String
  | .zero => "capacity must be greater than 0"
  | .tooLarge requested =>
    "capacity " ++ toString requested ++ " exceeds the maximum of " ++ toString maxCapacity

theorem checkCapacity_eq_ok_iff (capacity : Nat) :
    checkCapacity capacity = .ok () ↔ 0 < capacity ∧ capacity ≤ maxCapacity := by
  unfold checkCapacity
  split
  · simp; omega
  · split <;> simp <;> omega

theorem checkCapacity_of_too_large {capacity : Nat} (excessive : maxCapacity < capacity) :
    checkCapacity capacity = .error (.tooLarge capacity) := by
  have nonzero : capacity ≠ 0 := by omega
  rw [checkCapacity, if_neg nonzero, if_pos excessive]

end RingQueue
