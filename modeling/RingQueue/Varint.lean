/-!
Numbers as bytes of seven bits each, the low ones first; every byte but the last has its top bit
set.

A limit on the length and on the last byte bounds the numbers that can be read. Longer spellings of
a number, with zeros at the top, are read as well; only the shortest is written.
-/
namespace RingQueue.Varint

inductive Fault where
  | tooFewBytes
  | malformed
  deriving DecidableEq, Repr

/-- How many bytes a number may take and how large the last of them may be. -/
structure Limits where
  bytes : Nat
  lastByte : Nat
  deriving DecidableEq, Repr

/-- Numbers of 64 bits: nine groups of seven, and one bit. -/
def Limits.limits64 : Limits := ⟨10, 1⟩

/-- Numbers of 32 bits: four groups of seven, and four bits. -/
def Limits.limits32 : Limits := ⟨5, 15⟩

/-- The groups of a number, as far as `groups` of them reach. -/
def encodeGroups : Nat → Nat → List UInt8
  | 0, _ => []
  | groups + 1, n =>
    if n < 128 then [UInt8.ofNat n]
    else UInt8.ofNat (n % 128 + 128) :: encodeGroups groups (n / 128)

/-- The shortest spelling of a number within limits. -/
def encode (limits : Limits) (n : Nat) : List UInt8 := encodeGroups limits.bytes n

/-- Reads at most `bytes` more bytes; the last one possible must not exceed `lastByte`. -/
def decodeGroups (lastByte : Nat) : Nat → List UInt8 → Except Fault (Nat × List UInt8)
  | 0, _ => .error .malformed
  | _ + 1, [] => .error .tooFewBytes
  | bytes + 1, b :: rest =>
    if b.toNat < 128 then
      if bytes = 0 ∧ lastByte < b.toNat then .error .malformed else .ok (b.toNat, rest)
    else
      match decodeGroups lastByte bytes rest with
      | .ok (n, rest) => .ok (b.toNat - 128 + 128 * n, rest)
      | .error fault => .error fault

/-- A number at the front of the bytes, and the bytes behind it. -/
def decode (limits : Limits) (bytes : List UInt8) : Except Fault (Nat × List UInt8) :=
  decodeGroups limits.lastByte limits.bytes bytes

end RingQueue.Varint
