/-!
What a push does when the ring is full.
-/
namespace RingQueue

/-- What a push does when the ring is full. -/
inductive OverflowPolicy where
  -- The push is turned down.
  | reject
  -- The oldest unread entry makes way.
  | overwrite
  -- The push waits for room.
  | block
  deriving DecidableEq, Repr

namespace OverflowPolicy

/-- The policies in the order of their indices. -/
def all : List OverflowPolicy := [.reject, .overwrite, .block]

/-- A queue that names no policy loses nothing. -/
def default : OverflowPolicy := .block

instance : Inhabited OverflowPolicy := ⟨default⟩

/-- The name in settings. -/
def name : OverflowPolicy → String
  | .reject => "reject"
  | .overwrite => "overwrite"
  | .block => "block"

/-- The name in descriptions. -/
def label : OverflowPolicy → String
  | .reject => "Reject"
  | .overwrite => "Overwrite"
  | .block => "Block"

/-- The place in `all`, which is also the number in the binary form. -/
def index : OverflowPolicy → Nat
  | .reject => 0
  | .overwrite => 1
  | .block => 2

def ofName? : String → Option OverflowPolicy
  | "reject" => some .reject
  | "overwrite" => some .overwrite
  | "block" => some .block
  | _ => none

def ofIndex? (n : Nat) : Option OverflowPolicy := all[n]?

theorem ofName?_name (p : OverflowPolicy) : ofName? p.name = some p := by
  cases p <;> rfl

theorem ofIndex?_index (p : OverflowPolicy) : ofIndex? p.index = some p := by
  cases p <;> rfl

end OverflowPolicy

/-- How the policy of a queue was chosen: once and for all by the queue's type, or by a value that
the settings supplied. Pushes behave alike under both; only the description tells them apart. -/
inductive Policy where
  | fixed (kind : OverflowPolicy)
  | chosen (kind : OverflowPolicy)
  deriving DecidableEq, Repr

namespace Policy

def kind : Policy → OverflowPolicy
  | fixed kind => kind
  | chosen kind => kind

/-- A fixed policy describes itself in full, a chosen one by its label. -/
def describe : Policy → String
  | fixed kind => kind.label ++ "WhenFull"
  | chosen kind => kind.label

end Policy

end RingQueue
