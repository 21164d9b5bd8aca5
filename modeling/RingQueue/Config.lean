import RingQueue.Capacity
import RingQueue.Policy

/-!
Settings of a policy queue: how many slots it has and what a push does when they are all taken.
Main statement: `validate_eq_ok_iff`, settings are valid exactly when the capacity is in range.
-/
namespace RingQueue

/-- Settings of a policy queue. Out of range capacities can be written down; `validate` finds them.
-/
structure Config where
  capacity : Nat
  policy : OverflowPolicy
  deriving DecidableEq, Repr

inductive ConfigError where
  | zeroCapacity
  | capacityTooLarge (requested : Nat)
  deriving DecidableEq, Repr

namespace ConfigError

def name : ConfigError → String
  | zeroCapacity => "ZeroCapacity"
  | capacityTooLarge _ => "CapacityTooLarge"

def message : ConfigError → String
  | zeroCapacity => "queue capacity must be greater than 0"
  | capacityTooLarge requested =>
    "queue capacity " ++ toString requested ++ " exceeds the maximum of " ++ toString maxCapacity

end ConfigError

namespace Config

/-- Never loses an entry: pushes wait. -/
def lossless : Config := ⟨defaultCapacity, .block⟩

/-- Never waits: the oldest entry makes way. -/
def lossy : Config := ⟨defaultCapacity, .overwrite⟩

/-- Never waits and never loses an entry silently: the push is turned down. -/
def failFast : Config := ⟨defaultCapacity, .reject⟩

def default : Config := lossless

instance : Inhabited Config := ⟨default⟩

def withCapacity (c : Config) (capacity : Nat) : Config := { c with capacity }

def withPolicy (c : Config) (policy : OverflowPolicy) : Config := { c with policy }

/-- Settings are valid when the capacity is in range; a capacity of zero is reported first. -/
def validate (c : Config) : Except ConfigError Unit :=
  if c.capacity = 0 then .error .zeroCapacity
  else if maxCapacity < c.capacity then .error (.capacityTooLarge c.capacity)
  else .ok ()

def describe (c : Config) : String :=
  "QueueConfig \x7b capacity: " ++ toString c.capacity ++ ", policy: " ++ c.policy.label ++ " \x7d"

theorem validate_eq_ok_iff (c : Config) :
    c.validate = .ok () ↔ 0 < c.capacity ∧ c.capacity ≤ maxCapacity := by
  unfold validate
  split
  · simp; omega
  · split <;> simp <;> omega

end Config

end RingQueue
