import RingQueue.Json.Value

/-!
Reading JSON text: characters are gathered into lexemes, and lexemes into values. Both stages go
through their input once and keep what is still open in a state, so that neither the length nor the
depth of a text matters.
-/
namespace RingQueue.Json

/-- The smallest parts of a JSON text that mean something. -/
inductive Lexeme where
  | openObject
  | closeObject
  | openArray
  | closeArray
  | colon
  | comma
  | text (value : String)
  | scalar (value : Json)
  deriving Inhabited

/-! ## Numbers and words -/

def digitValue (c : Char) : Nat := c.toNat - '0'.toNat

def natOfDigits (cs : List Char) : Nat := cs.foldl (fun n c => 10 * n + digitValue c) 0

/-- The parts of a number: sign, digits before the point, digits behind it, exponent. -/
structure Numeral where
  negative : Bool
  whole : List Char
  fraction : Option (List Char)
  exponent : Option Int

def readExponent? (cs : List Char) : Option Int :=
  match cs with
  | '-' :: digits =>
    if digits.isEmpty || !digits.all Char.isDigit then none else some (-(natOfDigits digits : Int))
  | '+' :: digits =>
    if digits.isEmpty || !digits.all Char.isDigit then none else some (natOfDigits digits)
  | digits =>
    if digits.isEmpty || !digits.all Char.isDigit then none else some (natOfDigits digits)

def Numeral.ofChars? (cs : List Char) : Option Numeral :=
  let (negative, cs) : Bool × List Char :=
    match cs with
    | '-' :: rest => (true, rest)
    | cs => (false, cs)
  let whole := cs.takeWhile Char.isDigit
  let cs := cs.dropWhile Char.isDigit
  if whole.isEmpty || (1 < whole.length && whole.head? == some '0') then none
  else
    let (fraction, cs) : Option (List Char) × List Char :=
      match cs with
      | '.' :: rest => (some (rest.takeWhile Char.isDigit), rest.dropWhile Char.isDigit)
      | cs => (none, cs)
    if fraction == some [] then none
    else
      match cs with
      | [] => some ⟨negative, whole, fraction, none⟩
      | c :: rest =>
        if c = 'e' ∨ c = 'E' then
          (readExponent? rest).map fun e => ⟨negative, whole, fraction, some e⟩
        else none

/-- The fraction `n * 10 ^ e`, rounded to the nearest number in binary. -/
def floatOf (negative : Bool) (n : Nat) (e : Int) : Float :=
  let x := if e < 0 then Float.ofScientific n true e.natAbs else Float.ofScientific n false e.natAbs
  if negative then -x else x

/-- A numeral without point and exponent is an integer if it fits into 64 bits. Minus zero is not
an integer. -/
def Numeral.value (n : Numeral) : Json :=
  let digits := n.whole ++ n.fraction.getD []
  let mantissa := natOfDigits digits
  let places : Int := (n.fraction.getD []).length
  let asFloat := Json.float (floatOf n.negative mantissa (n.exponent.getD 0 - places))
  if n.fraction.isSome || n.exponent.isSome then asFloat
  else if n.negative then
    if mantissa = 0 ∨ Nat.pow 2 63 < mantissa then asFloat else .integer (-(mantissa : Int))
  else if Nat.pow 2 64 ≤ mantissa then asFloat
  else .integer mantissa

/-- A word that is not in quotes. -/
def scalarOf? (cs : List Char) : Option Json :=
  if cs = "null".toList then some .null
  else if cs = "true".toList then some (.bool true)
  else if cs = "false".toList then some (.bool false)
  else (Numeral.ofChars? cs).map Numeral.value

/-! ## Lexemes -/

/-- What is being gathered; characters gathered so far stand in reverse. -/
inductive Gathering where
  | nothing
  | word (chars : List Char)
  | text (chars : List Char)
  | escape (chars : List Char)
  | code (chars : List Char) (high : Option Nat) (left : Nat) (value : Nat)
  -- The first half of a pair was read, the second must follow: a backslash and a `u`.
  | half (chars : List Char) (high : Nat) (backslash : Bool)

structure Lexing where
  lexemes : List Lexeme
  gathering : Gathering

def isBlank (c : Char) : Bool := c = ' ' || c = '\t' || c = '\n' || c = '\r'

def punctuation? (c : Char) : Option Lexeme :=
  match c with
  | '\x7b' => some .openObject
  | '\x7d' => some .closeObject
  | '[' => some .openArray
  | ']' => some .closeArray
  | ':' => some .colon
  | ',' => some .comma
  | _ => none

def hexValue? (c : Char) : Option Nat :=
  if c.isDigit then some (c.toNat - '0'.toNat)
  else if 'a' ≤ c ∧ c ≤ 'f' then some (c.toNat - 'a'.toNat + 10)
  else if 'A' ≤ c ∧ c ≤ 'F' then some (c.toNat - 'A'.toNat + 10)
  else none

/-- The end of the word under way, if there is one. -/
def Lexing.endWord (s : Lexing) : Option Lexing :=
  match s.gathering with
  | .nothing => some s
  | .word chars => (scalarOf? chars.reverse).map fun v => ⟨.scalar v :: s.lexemes, .nothing⟩
  | _ => none

def Lexing.plain (s : Lexing) (c : Char) : Option Lexing :=
  if isBlank c then s.endWord
  else if c = '"' then s.endWord.map fun s => { s with gathering := .text [] }
  else
    match punctuation? c with
    | some l => s.endWord.map fun s => { s with lexemes := l :: s.lexemes }
    | none =>
      match s.gathering with
      | .word chars => some { s with gathering := .word (c :: chars) }
      | _ => some { s with gathering := .word [c] }

/-- A complete code of four digits. Codes from D800 to DFFF are halves of a pair. -/
def Lexing.endCode (s : Lexing) (chars : List Char) (high : Option Nat) (value : Nat) :
    Option Lexing :=
  match high with
  | none =>
    if 0xD800 ≤ value ∧ value < 0xDC00 then some { s with gathering := .half chars value false }
    else if 0xDC00 ≤ value ∧ value < 0xE000 then none
    else some { s with gathering := .text (Char.ofNat value :: chars) }
  | some high =>
    if 0xDC00 ≤ value ∧ value < 0xE000 then
      -- Ten bits from each half.
      let code := 0x10000 + (high - 0xD800) * 0x400 + (value - 0xDC00)
      some { s with gathering := .text (Char.ofNat code :: chars) }
    else none

def Lexing.step (s : Lexing) (c : Char) : Option Lexing :=
  match s.gathering with
  | .nothing => s.plain c
  | .word _ => s.plain c
  | .text chars =>
    if c = '"' then some ⟨.text (String.ofList chars.reverse) :: s.lexemes, .nothing⟩
    else if c = '\\' then some { s with gathering := .escape chars }
    else if c.toNat < 32 then none
    else some { s with gathering := .text (c :: chars) }
  | .escape chars =>
    match c with
    | '"' => some { s with gathering := .text ('"' :: chars) }
    | '\\' => some { s with gathering := .text ('\\' :: chars) }
    | '/' => some { s with gathering := .text ('/' :: chars) }
    | 'b' => some { s with gathering := .text ('\x08' :: chars) }
    | 'f' => some { s with gathering := .text ('\x0c' :: chars) }
    | 'n' => some { s with gathering := .text ('\n' :: chars) }
    | 'r' => some { s with gathering := .text ('\r' :: chars) }
    | 't' => some { s with gathering := .text ('\t' :: chars) }
    | 'u' => some { s with gathering := .code chars none 4 0 }
    | _ => none
  | .code chars high left value =>
    match hexValue? c with
    | none => none
    | some d =>
      let value := 16 * value + d
      if left ≤ 1 then s.endCode chars high value
      else some { s with gathering := .code chars high (left - 1) value }
  | .half chars high backslash =>
    if !backslash && c = '\\' then some { s with gathering := .half chars high true }
    else if backslash && c = 'u' then some { s with gathering := .code chars (some high) 4 0 }
    else none

/-- The lexemes of a text, or nothing if it has a part that is none. -/
def lexemes? (s : String) : Option (List Lexeme) := do
  let start : Lexing := ⟨[], .nothing⟩
  let last ← s.foldl (fun state c => state.bind (Lexing.step · c)) (some start)
  let last ← last.endWord
  return last.lexemes.reverse

/-! ## Values -/

/-- A container whose end has not been reached; its parts stand in order, the last first. -/
inductive Frame where
  | items (done : List Json)
  | members (done : List (String × Json)) (key : Option String)

inductive Expected where
  | value
  | valueOrClose
  | keyOrClose
  | key
  | colon
  | commaOrClose
  | nothing
  deriving DecidableEq

structure Building where
  frames : List Frame
  expected : Expected
  result : Option Json

/-- A complete value takes its place in the innermost open container. -/
def Building.put (s : Building) (v : Json) : Option Building :=
  if s.expected = .value ∨ s.expected = .valueOrClose then
    match s.frames with
    | [] => some { s with expected := .nothing, result := some v }
    | .items done :: rest =>
      some { s with frames := .items (v :: done) :: rest, expected := .commaOrClose }
    | .members done (some key) :: rest =>
      some { s with
        frames := .members (setMember key v done) none :: rest, expected := .commaOrClose }
    | .members _ none :: _ => none
  else none

/-- The innermost container ends and is itself a value. -/
def Building.close (s : Building) (rest : List Frame) (v : Json) : Option Building :=
  Building.put { s with frames := rest, expected := .value } v

def Building.step (s : Building) (l : Lexeme) : Option Building :=
  match l with
  | .scalar v => s.put v
  | .text t =>
    match s.expected, s.frames with
    | .key, .members done _ :: rest =>
      some { s with frames := .members done (some t) :: rest, expected := .colon }
    | .keyOrClose, .members done _ :: rest =>
      some { s with frames := .members done (some t) :: rest, expected := .colon }
    | _, _ => s.put (.string t)
  | .openArray =>
    if s.expected = .value ∨ s.expected = .valueOrClose then
      some { s with frames := .items [] :: s.frames, expected := .valueOrClose }
    else none
  | .openObject =>
    if s.expected = .value ∨ s.expected = .valueOrClose then
      some { s with frames := .members [] none :: s.frames, expected := .keyOrClose }
    else none
  | .closeArray =>
    match s.frames with
    | .items done :: rest =>
      if s.expected = .valueOrClose ∨ s.expected = .commaOrClose then
        s.close rest (.array done.reverse)
      else none
    | _ => none
  | .closeObject =>
    match s.frames with
    | .members done _ :: rest =>
      if s.expected = .keyOrClose ∨ s.expected = .commaOrClose then s.close rest (.object done)
      else none
    | _ => none
  | .colon => if s.expected = .colon then some { s with expected := .value } else none
  | .comma =>
    if s.expected = .commaOrClose then
      match s.frames with
      | .items _ :: _ => some { s with expected := .value }
      | .members _ _ :: _ => some { s with expected := .key }
      | [] => none
    else none

def parse? (s : String) : Option Json := do
  let lexemes ← lexemes? s
  let start : Building := ⟨[], .value, none⟩
  let last ← lexemes.foldl (fun state l => state.bind (Building.step · l)) (some start)
  if last.expected = .nothing then last.result else none

end RingQueue.Json
