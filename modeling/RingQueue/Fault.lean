import RingQueue.Capacity

/-!
What makes a call break off, and how calls end.
-/
namespace RingQueue

/-- Why a call broke off. -/
inductive Fault where
  | capacity (fault : CapacityFault)
  -- So many slots have more bytes than a block can have.
  | layoutOverflow
  -- An entry, shown as `entry`, could not be cloned.
  | cloneFailed (entry : String)
  -- The constructor of a new entry broke off.
  | constructorFailed
  -- An entry broke off while it was being dropped.
  | dropFailed
  -- The clock cannot show the time at which a wait should end.
  | deadlineOverflow
  deriving DecidableEq, Repr

def Fault.message : Fault → String
  | capacity fault => fault.message
  | layoutOverflow => "slot array layout overflow: LayoutError"
  | cloneFailed entry => "clone of " ++ entry ++ " failed"
  | constructorFailed => "constructor failed"
  | dropFailed => "drop failed"
  | deadlineOverflow => "overflow when adding duration to instant"

/-- How a call ends. A call that waits goes on only when some other handle acts. -/
inductive Outcome (β : Type) where
  | returned (value : β)
  | aborted (fault : Fault)
  | waiting
  deriving Repr

namespace Outcome

variable {β γ : Type}

def map (f : β → γ) : Outcome β → Outcome γ
  | returned value => returned (f value)
  | aborted fault => aborted fault
  | waiting => waiting

def value? : Outcome β → Option β
  | returned value => some value
  | _ => none

end Outcome

end RingQueue
