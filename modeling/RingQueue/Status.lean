/-!
The errors of a policy queue and the small numbers that stand for them.
-/
namespace RingQueue

/-- The outcome of an operation as a small number. -/
inductive StatusCode where
  | success
  | queueIsFull
  | queueIsEmpty
  | unknown
  deriving DecidableEq, Repr

/-- Why an operation on a policy queue did not succeed. -/
inductive QueueError where
  | queueIsFull
  | queueIsEmpty
  | unknown
  deriving DecidableEq, Repr

/-- How the surrounding input and output layer classifies a queue error. -/
inductive IoKind where
  | wouldBlock
  | other
  deriving DecidableEq, Repr

namespace StatusCode

def number : StatusCode → Nat
  | success => 0
  | queueIsFull => 1
  | queueIsEmpty => 2
  | unknown => 3

/-- Numbers that no status has are read as `unknown`. -/
def ofNumber : Nat → StatusCode
  | 0 => success
  | 1 => queueIsFull
  | 2 => queueIsEmpty
  | _ => unknown

def name : StatusCode → String
  | success => "Success"
  | queueIsFull => "QueueIsFull"
  | queueIsEmpty => "QueueIsEmpty"
  | unknown => "Unknown"

def description : StatusCode → String
  | success => "success"
  | queueIsFull => "queue is full"
  | queueIsEmpty => "queue is empty"
  | unknown => "unknown error"

def isSuccess : StatusCode → Bool
  | success => true
  | _ => false

/-- The error that a status stands for; success stands for none. -/
def error? : StatusCode → Option QueueError
  | success => none
  | queueIsFull => some .queueIsFull
  | queueIsEmpty => some .queueIsEmpty
  | unknown => some .unknown

/-- The wording when success is taken for an error. -/
def notAnErrorMessage : String := "success is not an error"

theorem ofNumber_number (c : StatusCode) : ofNumber c.number = c := by
  cases c <;> rfl

end StatusCode

namespace QueueError

def code : QueueError → StatusCode
  | queueIsFull => .queueIsFull
  | queueIsEmpty => .queueIsEmpty
  | unknown => .unknown

def name (e : QueueError) : String := e.code.name

/-- An error reads as the description of its status. -/
def message (e : QueueError) : String := e.code.description

/-- A full or an empty queue may change, so the operation can be tried again. -/
def ioKind : QueueError → IoKind
  | queueIsFull => .wouldBlock
  | queueIsEmpty => .wouldBlock
  | unknown => .other

def ofName? : String → Option QueueError
  | "QueueIsFull" => some queueIsFull
  | "QueueIsEmpty" => some queueIsEmpty
  | "Unknown" => some unknown
  | _ => none

theorem error?_code (e : QueueError) : e.code.error? = some e := by
  cases e <;> rfl

end QueueError

/-- The status of a result: success, or the status of its error. -/
def StatusCode.ofResult {α : Type} : Except QueueError α → StatusCode
  | .ok _ => .success
  | .error e => e.code

namespace IoKind

def name : IoKind → String
  | wouldBlock => "WouldBlock"
  | other => "Other"

end IoKind

end RingQueue
