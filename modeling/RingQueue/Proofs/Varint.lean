import Mathlib.Algebra.Ring.Nat
import Mathlib.Tactic.Common
import RingQueue.Varint

/-!
Which bytes stand for which number.

`Spells` says it without limits and without a reader. Within limits exactly the spellings that are
short enough, of numbers that are small enough, are read (`decodeGroups_eq_ok_iff`). A number has
many spellings; the one that is written is shorter than all others (`Spells.shortest`).
-/
namespace RingQueue.Varint

/-- The bytes hold the groups of a number, the low ones first, and the top bit of all but the last
is set. -/
inductive Spells : List UInt8 → Nat → Prop where
  | last {b : UInt8} (low : b.toNat < 128) : Spells [b] b.toNat
  | more {b : UInt8} {later : List UInt8} {n : Nat} (high : 128 ≤ b.toNat)
      (spells : Spells later n) :
      Spells (b :: later) (b.toNat - 128 + 128 * n)

variable {spelling rest bytes : List UInt8} {n groups lastByte : Nat}

theorem Spells.length_pos (spells : Spells spelling n) : 0 < spelling.length := by
  cases spells <;> exact Nat.succ_pos _

/-- A byte takes seven bits off the numbers that the bytes after it can spell. -/
theorem Spells.small_tail {b n : Nat}
    (small : b - 128 + 128 * n < 128 ^ (groups + 1) * (lastByte + 1)) :
    n < 128 ^ groups * (lastByte + 1) := by
  rw [Nat.pow_succ', Nat.mul_assoc] at small
  omega

/-! ## Reading -/

/-- A spelling that keeps to the limits is read, whatever follows it. -/
theorem Spells.decodeGroups (spells : Spells spelling n) (short : spelling.length ≤ groups + 1)
    (small : n < 128 ^ groups * (lastByte + 1)) (rest : List UInt8) :
    decodeGroups lastByte (groups + 1) (spelling ++ rest) = .ok (n, rest) := by
  induction spells generalizing groups with
  | @last b low =>
    have allowed : ¬ (groups = 0 ∧ lastByte < b.toNat) := by
      rintro ⟨rfl, large⟩
      simp only [Nat.pow_zero, Nat.one_mul] at small
      omega
    rw [List.singleton_append, Varint.decodeGroups, if_pos low, if_neg allowed]
  | @more b later n high spells ih =>
    -- There is a byte after this one, so that there is room for it.
    have follows := spells.length_pos
    rw [List.length_cons] at short
    cases groups with
    | zero => omega
    | succ groups =>
      have read := ih (by omega) (Spells.small_tail small)
      rw [List.cons_append, Varint.decodeGroups, if_neg (by omega), read]

/-- What is read is a spelling that keeps to the limits. -/
theorem spells_of_decodeGroups (read : decodeGroups lastByte (groups + 1) bytes = .ok (n, rest)) :
    ∃ spelling, bytes = spelling ++ rest ∧ Spells spelling n ∧ spelling.length ≤ groups + 1 ∧
      n < 128 ^ groups * (lastByte + 1) := by
  induction groups generalizing bytes n with
  | zero =>
    cases bytes with
    | nil => cases read
    | cons b later =>
      simp only [decodeGroups] at read
      split at read
      · rename_i low
        split at read
        · cases read
        · rename_i allowed
          cases read
          have small : b.toNat ≤ lastByte := by simpa using allowed
          exact ⟨[b], rfl, .last low, Nat.le_refl _, by omega⟩
      · cases read
  | succ groups ih =>
    cases bytes with
    | nil => cases read
    | cons b later =>
      rw [decodeGroups] at read
      split at read
      · rename_i low
        rw [if_neg (by omega)] at read
        cases read
        have room : 1 ≤ 128 ^ groups * (lastByte + 1) :=
          Nat.mul_pos (Nat.pow_pos (by decide)) (by omega)
        refine ⟨[b], rfl, .last low, by simp, ?_⟩
        rw [Nat.pow_succ', Nat.mul_assoc]
        omega
      · rename_i high
        split at read
        · rename_i m left inner
          cases read
          obtain ⟨spelling, rfl, spells, short, small⟩ := ih inner
          have byte := b.toNat_lt
          refine ⟨b :: spelling, rfl, .more (by omega) spells, by simpa using short, ?_⟩
          rw [Nat.pow_succ', Nat.mul_assoc]
          omega
        · cases read

/-- The numbers below this have spellings within the limits. -/
def Limits.range (limits : Limits) : Nat := 128 ^ (limits.bytes - 1) * (limits.lastByte + 1)

theorem Limits.range_limits64 : limits64.range = 2 ^ 64 := by decide

theorem Limits.range_limits32 : limits32.range = 2 ^ 32 := by decide

/-- Within limits exactly the spellings are read that are short enough, of numbers that are small
enough. -/
theorem decode_eq_ok_iff {limits : Limits} (some_byte : 0 < limits.bytes) :
    decode limits bytes = .ok (n, rest) ↔
      ∃ spelling, bytes = spelling ++ rest ∧ Spells spelling n ∧ spelling.length ≤ limits.bytes ∧
        n < limits.range := by
  obtain ⟨groups, same⟩ := Nat.exists_eq_add_of_lt some_byte
  rw [Nat.zero_add] at same
  simp only [decode, Limits.range, same, Nat.add_sub_cancel]
  constructor
  · exact spells_of_decodeGroups
  · rintro ⟨spelling, rfl, spells, short, small⟩
    exact spells.decodeGroups short small rest

/-! ## Writing -/

theorem encodeGroups_spells (small : n < 128 ^ (groups + 1)) :
    Spells (encodeGroups (groups + 1) n) n := by
  induction groups generalizing n with
  | zero =>
    rw [Nat.zero_add, Nat.pow_one] at small
    have byte : (UInt8.ofNat n).toNat = n := UInt8.toNat_ofNat_of_lt' (by simp [UInt8.size]; omega)
    rw [encodeGroups, if_pos small]
    have spells := Spells.last (b := UInt8.ofNat n) (by omega)
    rwa [byte] at spells
  | succ groups ih =>
    rw [encodeGroups]
    split
    · rename_i low
      have byte : (UInt8.ofNat n).toNat = n :=
        UInt8.toNat_ofNat_of_lt' (by simp [UInt8.size]; omega)
      have spells := Spells.last (b := UInt8.ofNat n) (by omega)
      rwa [byte] at spells
    · have byte : (UInt8.ofNat (n % 128 + 128)).toNat = n % 128 + 128 :=
        UInt8.toNat_ofNat_of_lt' (by simp [UInt8.size]; omega)
      have tail : n / 128 < 128 ^ (groups + 1) := by
        rw [Nat.pow_succ'] at small
        omega
      have spells := Spells.more (b := UInt8.ofNat (n % 128 + 128)) (by omega) (ih tail)
      rw [byte, Nat.add_sub_cancel, Nat.mod_add_div] at spells
      exact spells

theorem encodeGroups_length (groups n : Nat) : (encodeGroups groups n).length ≤ groups := by
  induction groups generalizing n with
  | zero => exact Nat.le_refl _
  | succ groups ih =>
    rw [encodeGroups]
    split
    · simp
    · simpa using ih (n / 128)

/-- No spelling of a number is shorter than the one that is written, and no other is as short. -/
theorem Spells.shortest (spells : Spells spelling n) (small : n < 128 ^ (groups + 1)) :
    (encodeGroups (groups + 1) n).length ≤ spelling.length ∧
      (spelling.length ≤ (encodeGroups (groups + 1) n).length →
        spelling = encodeGroups (groups + 1) n) := by
  induction spells generalizing groups with
  | @last b low =>
    rw [encodeGroups, if_pos low, UInt8.ofNat_toNat]
    exact ⟨Nat.le_refl _, fun _ => rfl⟩
  | @more b later m high spells ih =>
    have follows := spells.length_pos
    have byte := b.toNat_lt
    by_cases low : b.toNat - 128 + 128 * m < 128
    · -- The groups after the first are all zero, and are not written.
      rw [encodeGroups, if_pos low]
      simp only [List.length_cons, List.length_nil]
      exact ⟨by omega, fun short => by omega⟩
    · cases groups with
      | zero => omega
      | succ groups =>
        have first : (b.toNat - 128 + 128 * m) % 128 + 128 = b.toNat := by omega
        have others : (b.toNat - 128 + 128 * m) / 128 = m := by omega
        have tail : m < 128 ^ (groups + 1) := by
          rw [Nat.pow_succ'] at small
          omega
        obtain ⟨longer, same⟩ := ih tail
        rw [encodeGroups, if_neg low, first, others, UInt8.ofNat_toNat]
        simp only [List.length_cons]
        refine ⟨by omega, fun short => ?_⟩
        rw [same (by omega)]

end RingQueue.Varint
