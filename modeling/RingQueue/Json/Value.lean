import RingQueue.Decimal.Shortest

/-!
JSON values and their text.

A number is an integer when it is written as one and fits into 64 bits, signed or unsigned, and a
binary fraction otherwise. The members of an object have distinct names: a later member replaces an
earlier one of the same name.
-/
namespace RingQueue

inductive Json where
  | null
  | bool (value : Bool)
  | integer (value : Int)
  | float (value : Float)
  | string (value : String)
  | array (items : List Json)
  | object (members : List (String × Json))
  deriving Inhabited

namespace Json

/-- The members with `value` under `name`, in the place of the old one if there was one. -/
def setMember (name : String) (value : Json) : List (String × Json) → List (String × Json)
  | [] => [(name, value)]
  | (other, old) :: rest =>
    if other = name then (name, value) :: rest else (other, old) :: setMember name value rest

def lookup (name : String) : List (String × Json) → Option Json
  | [] => none
  | (other, value) :: rest => if other = name then some value else lookup name rest

def get? (j : Json) (name : String) : Option Json :=
  match j with
  | .object members => lookup name members
  | _ => none

def ofNat (n : Nat) : Json := .integer n

theorem lookup_setMember (name : String) (value : Json) (members : List (String × Json)) :
    lookup name (setMember name value members) = some value := by
  induction members with
  | nil => simp [setMember, lookup]
  | cons m rest ih =>
    obtain ⟨other, old⟩ := m
    by_cases h : other = name
    · simp [setMember, lookup, h]
    · simp [setMember, lookup, h, ih]

/-! ## Text -/

def hexDigit (n : Nat) : Char := (Nat.digitChar n)

/-- A character inside a quoted text. -/
def escapeChar (c : Char) : String :=
  if c = '"' then "\\\""
  else if c = '\\' then "\\\\"
  else if c = '\n' then "\\n"
  else if c = '\r' then "\\r"
  else if c = '\t' then "\\t"
  else if c.toNat < 32 then
    "\\u00" ++ String.ofList [hexDigit (c.toNat / 16), hexDigit (c.toNat % 16)]
  else c.toString

def quote (s : String) : String :=
  "\"" ++ s.foldl (fun text c => text ++ escapeChar c) "" ++ "\""

mutual

/-- A text with the text of a value behind it. -/
def renderOnto (text : String) : Json → String
  | .null => text ++ "null"
  | .bool b => text ++ if b then "true" else "false"
  | .integer i => text ++ toString i
  | .float x => text ++ Decimal.ofFloat x
  | .string s => text ++ quote s
  | .array items => renderItems (text ++ "[") "" items ++ "]"
  | .object members => renderMembers (text ++ "\x7b") "" members ++ "\x7d"

/-- A text with items behind it. A comma stands before all of them but the first. -/
def renderItems (text comma : String) : List Json → String
  | [] => text
  | item :: rest => renderItems (renderOnto (text ++ comma) item) "," rest

def renderMembers (text comma : String) : List (String × Json) → String
  | [] => text
  | (name, value) :: rest =>
    renderMembers (renderOnto (text ++ comma ++ quote name ++ ":") value) "," rest

end

/-- The text of a value, without blanks. -/
def render (v : Json) : String := renderOnto "" v

end Json

end RingQueue
