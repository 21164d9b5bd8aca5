import RingQueue.Config
import RingQueue.Json.Value
import RingQueue.Text.Quoted

/-!
Settings as JSON values.

Settings are an object with the members `capacity` and `policy`, or an array with these two in
order; what is absent takes its default. A policy is its name, or an object whose only member is the
name with the value null. Of two faults the one of the capacity is reported.
-/
namespace RingQueue.Config.Document

/-- The kinds of values that can be expected at a place. -/
inductive Expectation where
  | settings
  | capacity
  | policy
  | nothing
  deriving DecidableEq, Repr

inductive Fault where
  -- A value of another kind than expected.
  | wrongKind (found : Json) (expected : Expectation)
  -- A negative capacity.
  | negativeCapacity (found : Int)
  | unknownPolicy (name : String)
  -- An object that should name a policy does not have exactly one member.
  | notSingle
  -- An array has more than the two places.
  | tooLong (length : Nat)

def Expectation.describe : Expectation → String
  | settings => "struct QueueConfig"
  | capacity => "usize"
  | policy => "string or map"
  | nothing => "unit"

/-- What was found, in words. -/
def found : Json → String
  | .null => "null"
  | .bool b => "boolean `" ++ (if b then "true" else "false") ++ "`"
  | .integer i => "integer `" ++ toString i ++ "`"
  | .float x => "floating point `" ++ Decimal.ofFloat x ++ "`"
  | .string s => "string " ++ Text.quoted s
  | .array _ => "sequence"
  | .object _ => "map"

/-- The names of all policies, each in ticks. -/
def policyNames : String :=
  ", ".intercalate (OverflowPolicy.all.map fun p => "`" ++ p.name ++ "`")

def Fault.message : Fault → String
  | wrongKind v e => "invalid type: " ++ found v ++ ", expected " ++ e.describe
  | negativeCapacity i =>
    "invalid value: " ++ found (.integer i) ++ ", expected " ++ Expectation.capacity.describe
  | unknownPolicy name => "unknown variant `" ++ name ++ "`, expected one of " ++ policyNames
  | notSingle => "invalid value: map, expected map with a single key"
  | tooLong length =>
    "invalid length " ++ toString length ++ ", expected fewer elements in array"

/-- A capacity is an integer that is not negative. -/
def decodeCapacity : Json → Except Fault Nat
  | .integer i => if i < 0 then .error (.negativeCapacity i) else .ok i.toNat
  | v => .error (.wrongKind v .capacity)

def policyNamed (name : String) : Except Fault OverflowPolicy :=
  match OverflowPolicy.ofName? name with
  | some policy => .ok policy
  | none => .error (.unknownPolicy name)

/-- A policy by its name. In the long form the name is looked at before the value. -/
def decodePolicy : Json → Except Fault OverflowPolicy
  | .string name => policyNamed name
  | .object [(name, value)] =>
    match policyNamed name, value with
    | .error fault, _ => .error fault
    | .ok policy, .null => .ok policy
    | .ok _, value => .error (.wrongKind value .nothing)
  | .object _ => .error .notSingle
  | v => .error (.wrongKind v .policy)

def decodeCapacity? : Option Json → Except Fault Nat
  | none => .ok Config.default.capacity
  | some v => decodeCapacity v

def decodePolicy? : Option Json → Except Fault OverflowPolicy
  | none => .ok Config.default.policy
  | some v => decodePolicy v

/-- Settings of which each part is there or absent. -/
def decodeParts (capacity policy : Option Json) : Except Fault Config :=
  match decodeCapacity? capacity with
  | .error fault => .error fault
  | .ok capacity =>
    match decodePolicy? policy with
    | .error fault => .error fault
    | .ok policy => .ok ⟨capacity, policy⟩

/-- Settings from a value. An array that is too long is reported after faults in its first two
items. -/
def decode : Json → Except Fault Config
  | .object members => decodeParts (Json.lookup "capacity" members) (Json.lookup "policy" members)
  | .array items =>
    match decodeParts items[0]? items[1]? with
    | .error fault => .error fault
    | .ok config => if 2 < items.length then .error (.tooLong items.length) else .ok config
  | v => .error (.wrongKind v .settings)

def encodePolicy (p : OverflowPolicy) : Json := .string p.name

/-- The members in their usual order. -/
def encode (c : Config) : Json :=
  .object [("capacity", .ofNat c.capacity), ("policy", encodePolicy c.policy)]

end RingQueue.Config.Document
