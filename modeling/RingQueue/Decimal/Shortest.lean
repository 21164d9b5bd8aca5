/-!
The shortest decimal that stands for a binary fraction.

A finite number is `mantissa * 2 ^ exponent`. Every real that lies nearer to it than to its
neighbours reads back as this number, so the interval around it tells which decimals stand for it.
`shortest` takes the first of the grids with 1, 2, … digits that has a point in the interval, and of
the points there the nearest. `text` writes it around a point or with a power of ten.
-/
namespace RingQueue.Decimal

/-- A positive number in binary: `mantissa * 2 ^ exponent`. -/
structure Binary where
  mantissa : Nat
  exponent : Int
  deriving DecidableEq, Repr

/-- A number in decimal: `digits * 10 ^ exponent`. -/
structure Digits where
  digits : Nat
  exponent : Int
  deriving DecidableEq, Repr

structure Ratio where
  num : Nat
  den : Nat

/-- `a * b ^ e` as a quotient. -/
def Ratio.scaled (a b : Nat) (e : Int) : Ratio :=
  if 0 ≤ e then ⟨a * b.pow e.toNat, 1⟩ else ⟨a, b.pow (-e).toNat⟩

/-- The numbers that read back as a given one lie between `low` and `high`, the ends included when
`closed`. All three numbers have the denominator `den`. -/
structure Interval where
  low : Nat
  value : Nat
  high : Nat
  den : Nat
  closed : Bool

/-- The smallest mantissa of full width. -/
def fullMantissa : Nat := Nat.pow 2 52

/-- The exponent of the numbers next to zero. -/
def leastExponent : Int := -1074

/-- Halfway to the neighbours, in quarters of the last binary place. The neighbour below a power of
two is nearer, since a smaller exponent begins there. An even mantissa wins ties. -/
def Binary.interval (b : Binary) : Interval :=
  let below := if b.mantissa = fullMantissa ∧ leastExponent < b.exponent then 1 else 2
  let unit := Ratio.scaled 1 2 (b.exponent - 2)
  { low := (4 * b.mantissa - below) * unit.num
    value := 4 * b.mantissa * unit.num
    high := (4 * b.mantissa + 2) * unit.num
    den := unit.den
    closed := b.mantissa % 2 = 0 }

def Interval.contains (i : Interval) (r : Ratio) : Bool :=
  let a := r.num * i.den
  let low := i.low * r.den
  let high := i.high * r.den
  if i.closed then low ≤ a && a ≤ high else low < a && a < high

/-- The number of decimal digits before the point, or, for numbers below one, minus the number of
zeros that follow the point. -/
def magnitude (num den : Nat) : Int :=
  if den ≤ num then (Nat.toDigits 10 (num / den)).length
  else
    let zeros := ((List.range 400).find? fun k => den ≤ num * Nat.pow 10 (k + 1)).getD 400
    Int.neg zeros

/-- The point of the decimal grid `10 ^ e` in the interval that is nearest to the value. Halfway
between two points the even one is taken. -/
def Interval.onGrid? (i : Interval) (e : Int) : Option Digits :=
  let step := Ratio.scaled 1 10 e
  let down := i.value * step.den / (i.den * step.num)
  let up := down + 1
  let hits (d : Nat) := i.contains ⟨d * step.num, step.den⟩
  let gap := i.den * step.num
  let twice := 2 * (i.value * step.den - down * gap)
  let nearerUp := gap < twice || (gap = twice && down % 2 = 1)
  match hits down, hits up with
  | true, true => some ⟨if nearerUp then up else down, e⟩
  | true, false => some ⟨down, e⟩
  | false, true => some ⟨up, e⟩
  | false, false => none

/-- The shortest decimal that reads back as the number; seventeen digits always suffice. -/
def Binary.shortest (b : Binary) : Digits :=
  let i := b.interval
  let places := magnitude i.value i.den
  let grids := (List.range 17).map fun (n : Nat) => places - (n + 1 : Int)
  (grids.findSome? i.onGrid?).getD ⟨0, 0⟩

/-- All digits written out around a point, with at least one digit on each side of it. -/
def Digits.positional (d : Digits) : String :=
  let ds := Nat.toDigits 10 d.digits
  if 0 ≤ d.exponent then
    String.ofList (ds ++ List.replicate d.exponent.toNat '0') ++ ".0"
  else
    let places := (-d.exponent).toNat
    let padded := List.replicate (places + 1 - ds.length) '0' ++ ds
    let whole := padded.take (padded.length - places)
    let fraction := padded.drop (padded.length - places)
    let trimmed := (fraction.reverse.dropWhile (· = '0')).reverse
    String.ofList whole ++ "." ++ (if trimmed.isEmpty then "0" else String.ofList trimmed)

/-- The power of ten of the first digit. -/
def Digits.lead (d : Digits) : Int := (Nat.toDigits 10 d.digits).length - 1 + d.exponent

/-- One digit before a point, the others behind it, and the power of ten with its sign. -/
def Digits.scientific (d : Digits) : String :=
  let ds := Nat.toDigits 10 d.digits
  let fraction := (ds.tail.reverse.dropWhile (· = '0')).reverse
  let point := if fraction.isEmpty then "" else "." ++ String.ofList fraction
  let sign := if d.lead < 0 then "-" else "+"
  String.ofList (ds.take 1) ++ point ++ "e" ++ sign ++ toString d.lead.natAbs

/-- The least power of ten of a first digit that is written around a point. -/
def leastPositional : Int := -5

/-- The greatest power of ten of a first digit that is written around a point. -/
def greatestPositional : Int := 15

/-- All digits around a point, unless that would take many zeros. -/
def Digits.text (d : Digits) : String :=
  if leastPositional ≤ d.lead ∧ d.lead ≤ greatestPositional then d.positional else d.scientific

/-- The binary form of a finite number other than zero, without its sign. -/
def Binary.ofFloat (x : Float) : Binary :=
  let bits : Nat := x.toBits.toNat
  let exponent : Nat := bits / Nat.pow 2 52 % Nat.pow 2 11
  let fraction : Nat := bits % Nat.pow 2 52
  if exponent = 0 then ⟨fraction, leastExponent⟩
  else ⟨fraction + fullMantissa, leastExponent + exponent - 1⟩

/-- A finite number, written with as few digits as read back. -/
def ofFloat (x : Float) : String :=
  let negative := Nat.pow 2 63 ≤ x.toBits.toNat
  let b := Binary.ofFloat x
  let text := if b.mantissa = 0 then "0.0" else b.shortest.text
  if negative then "-" ++ text else text

end RingQueue.Decimal
