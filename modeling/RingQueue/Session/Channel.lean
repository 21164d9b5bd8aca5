import RingQueue.PolicyQueue
import RingQueue.Ring.Timed

/-!
A channel: a ring, its policy if it has one, and the handles that reach it.

A queue that nobody has split has one handle, its owner. Splitting it replaces the owner by a
producer, of which there may be more later, and the only consumer. The ring lives as long as it has
a handle.

A handle has a name. A push keeps its handle while the constructor of the entry runs; if the name is
given to another handle meanwhile, the handle lives on without a name until the push is over.

A handle describes itself by a record: a name and fields between braces, on one line or on several.
-/
namespace RingQueue

/-! ## Records -/

namespace Text

/-- A record to be described. Hidden fields show as two points. -/
structure Record where
  name : String
  fields : List (String × String)
  hidesMore : Bool

/-- The parts between the braces. -/
def Record.parts (r : Record) : List String := r.fields.map fun f => f.1 ++ ": " ++ f.2

/-- On one line, the parts with commas between them. -/
def Record.onOneLine (r : Record) : String :=
  let parts := r.parts ++ if r.hidesMore then [".."] else []
  r.name ++ " \x7b " ++ ", ".intercalate parts ++ " \x7d"

/-- One part to a line, indented and followed by a comma; the two points have none. -/
def Record.onLines (r : Record) : String :=
  let lines := r.parts.map (fun part => "    " ++ part ++ ",\n") ++
    if r.hidesMore then ["    ..\n"] else []
  r.name ++ " \x7b\n" ++ "".intercalate lines ++ "\x7d"

def Record.describe (r : Record) (onLines : Bool) : String :=
  if onLines then r.onLines else r.onOneLine

def yesOrNo (b : Bool) : String := if b then "true" else "false"

end Text

/-! ## Handles and channels -/

namespace Session

/-- What a handle may do: everything, push, or pop. -/
inductive Role where
  | owner
  | producer
  | consumer
  deriving DecidableEq, Repr

structure Handle where
  name : Option String
  role : Role
  -- The numbers of the pushes that keep the handle.
  keptBy : List Nat
  deriving DecidableEq, Repr

/-- By what a handle can be found. -/
inductive Key where
  | name (name : String)
  -- The number of a push that keeps the handle.
  | push (number : Nat)
  deriving DecidableEq, Repr

namespace Handle

def named (name : String) (role : Role) : Handle := ⟨some name, role, []⟩

def answersTo (h : Handle) : Key → Bool
  | .name name => h.name = some name
  | .push number => h.keptBy.contains number

/-- The handle once a key no longer leads to it; there is none when nothing else does. -/
def without (h : Handle) (key : Key) : Option Handle :=
  let rest : Handle :=
    match key with
    | .name name => if h.name = some name then { h with name := none } else h
    | .push number => { h with keptBy := h.keptBy.erase number }
  if rest.name.isNone && rest.keptBy.isEmpty then none else some rest

/-- The handle once a push keeps it. -/
def kept (h : Handle) (number : Nat) : Handle := { h with keptBy := number :: h.keptBy }

end Handle

structure Channel (α : Type) where
  ring : Ring α
  policy : Option Policy
  handles : List Handle

/-- What can be seen of a handle. Only consumers tell whether all producers are gone. -/
structure Status where
  len : Nat
  capacity : Nat
  isEmpty : Bool
  isFull : Bool
  disconnected : Option Bool
  deriving DecidableEq, Repr

namespace Channel

variable {α : Type}

def handle? (c : Channel α) (key : Key) : Option Handle := c.handles.find? (·.answersTo key)

def isReached (c : Channel α) (key : Key) : Bool := (c.handle? key).isSome

/-- The handles that are left once a key no longer leads to any of them. -/
def without (c : Channel α) (key : Key) : List Handle := c.handles.filterMap (·.without key)

/-- The channel while a push keeps the handle of a key. -/
def keeping (c : Channel α) (key : Key) (number : Nat) : Channel α :=
  { c with handles := c.handles.map fun h => if h.answersTo key then h.kept number else h }

/-- Whether the channel has a single handle, which then nobody can disturb. For a consumer it means
that every producer is gone. -/
def isSole (c : Channel α) : Bool := c.handles.length = 1

/-- The policy under which handles of a policy queue push. -/
def overflowPolicy (c : Channel α) : OverflowPolicy :=
  (c.policy.map Policy.kind).getD OverflowPolicy.default

def status (c : Channel α) (role : Role) : Status where
  len := c.ring.len
  capacity := c.ring.capacity
  isEmpty := c.ring.isEmpty
  isFull := c.ring.isFull
  disconnected := if role = .consumer then some c.isSole else none

/-- The name under which a handle describes itself. -/
def typeName (c : Channel α) (role : Role) : String :=
  match role, c.policy.isSome with
  | .owner, false => "BoundedQueue"
  | .producer, false => "Producer"
  | .consumer, false => "Consumer"
  | .owner, true => "PolicyQueue"
  | .producer, true => "PolicyWriter"
  | .consumer, true => "PolicyReader"

/-- What a handle tells about itself. Those with a policy tell all there is. -/
def record (c : Channel α) (role : Role) : Text.Record where
  name := c.typeName role
  fields :=
    let policy : List (String × String) :=
      match role, c.policy with
      | .consumer, _ => []
      | _, none => []
      | _, some policy => [("policy", policy.kind.label)]
    let disconnected : List (String × String) :=
      if role = .consumer then [("disconnected", Text.yesOrNo c.isSole)] else []
    policy ++
      [("capacity", toString c.ring.capacity), ("len", toString c.ring.len)] ++ disconnected
  hidesMore := c.policy.isNone

end Channel

/-- The description of a queue with a policy, as its owner gives it. -/
def describePolicyQueue {α : Type} (q : PolicyQueue α) (onLines : Bool) : String :=
  ((Channel.mk q.ring (some q.policy) []).record .owner).describe onLines

end Session

end RingQueue
