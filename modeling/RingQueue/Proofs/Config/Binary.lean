import RingQueue.Config.Binary
import RingQueue.Proofs.Varint

/-!
Settings in binary are read back as they were written, and are written as shortly as they can be.

The bytes of settings are a spelling of the capacity within 64 bits, a spelling of the index of the
policy within 32 bits, and anything (`decode_eq_ok_iff`).
-/
namespace RingQueue

theorem OverflowPolicy.ofIndex?_eq_some_iff (n : Nat) (p : OverflowPolicy) :
    ofIndex? n = some p ↔ n = p.index := by
  constructor
  · intro found
    obtain ⟨inside, same⟩ := List.getElem?_eq_some_iff.mp found
    have bound : n < 3 := inside
    subst same
    match n, bound with
    | 0, _ => rfl
    | 1, _ => rfl
    | 2, _ => rfl
  · rintro rfl
    exact ofIndex?_index p

theorem OverflowPolicy.index_lt (p : OverflowPolicy) : p.index < 128 := by
  cases p <;> decide

namespace Config.Binary

variable {bytes : List UInt8} {c : Config}

/-- The bytes begin with a capacity within 64 bits and the index of a policy within 32 bits. -/
structure Form (bytes : List UInt8) (c : Config) (capacity index rest : List UInt8) : Prop where
  split : bytes = capacity ++ index ++ rest
  number : Varint.Spells capacity c.capacity
  number_length : capacity.length ≤ 10
  number_small : c.capacity < 2 ^ 64
  place : Varint.Spells index c.policy.index
  place_length : index.length ≤ 5
  place_small : c.policy.index < 2 ^ 32

theorem decode_eq_ok_iff :
    decode bytes = .ok c ↔ ∃ capacity index rest, Form bytes c capacity index rest := by
  have range64 := Varint.Limits.range_limits64
  have range32 := Varint.Limits.range_limits32
  constructor
  · intro read
    unfold decode at read
    cases first : Varint.decode .limits64 bytes with
    | error fault => simp [first] at read
    | ok found =>
      obtain ⟨n, behind⟩ := found
      simp only [first] at read
      cases second : Varint.decode .limits32 behind with
      | error fault => simp [second] at read
      | ok found =>
        obtain ⟨i, rest⟩ := found
        simp only [second] at read
        cases policy : OverflowPolicy.ofIndex? i with
        | none => simp [policy] at read
        | some p =>
          simp only [policy, Except.ok.injEq] at read
          subst read
          obtain rfl := (OverflowPolicy.ofIndex?_eq_some_iff i p).mp policy
          obtain ⟨capacity, rfl, spells, short, small⟩ :=
            (Varint.decode_eq_ok_iff (by decide)).mp first
          obtain ⟨index, rfl, spells', short', small'⟩ :=
            (Varint.decode_eq_ok_iff (by decide)).mp second
          exact ⟨capacity, index, rest, (List.append_assoc _ _ _).symm, spells, short,
            range64 ▸ small, spells',
            short', range32 ▸ small'⟩
  · rintro ⟨capacity, index, rest, form⟩
    have first : Varint.decode .limits64 bytes = .ok (c.capacity, index ++ rest) :=
      (Varint.decode_eq_ok_iff (by decide)).mpr ⟨capacity, by rw [form.split, List.append_assoc],
        form.number, form.number_length, range64 ▸ form.number_small⟩
    have second : Varint.decode .limits32 (index ++ rest) = .ok (c.policy.index, rest) :=
      (Varint.decode_eq_ok_iff (by decide)).mpr ⟨index, rfl, form.place, form.place_length,
        range32 ▸ form.place_small⟩
    simp only [decode, first, second, OverflowPolicy.ofIndex?_index]

/-- What is written has the form of settings, and may be followed by anything. -/
theorem encode_form (small : c.capacity < 2 ^ 64) (rest : List UInt8) :
    Form (encode c ++ rest) c (Varint.encode .limits64 c.capacity) (encodePolicy c.policy)
      rest where
  split := rfl
  number := Varint.encodeGroups_spells (Nat.lt_trans small (by decide))
  number_length := Varint.encodeGroups_length _ _
  number_small := small
  place := Varint.encodeGroups_spells (Nat.lt_trans c.policy.index_lt (by decide))
  place_length := Varint.encodeGroups_length _ _
  place_small := Nat.lt_trans c.policy.index_lt (by decide)

/-- Bytes of settings are at least as long as those that are written, and are the same if they are
no longer. -/
theorem Form.shortest {capacity index rest : List UInt8} (form : Form bytes c capacity index rest) :
    (encode c).length ≤ bytes.length ∧ (bytes.length ≤ (encode c).length → bytes = encode c) := by
  have capacity_small : c.capacity < 128 ^ (9 + 1) := Nat.lt_trans form.number_small (by decide)
  have index_small : c.policy.index < 128 ^ (4 + 1) := Nat.lt_trans form.place_small (by decide)
  obtain ⟨longer, same⟩ := form.number.shortest capacity_small
  obtain ⟨longer', same'⟩ := form.place.shortest index_small
  have length := congrArg List.length form.split
  have written : (encode c).length =
      (Varint.encodeGroups (9 + 1) c.capacity).length +
        (Varint.encodeGroups (4 + 1) c.policy.index).length :=
    List.length_append
  simp only [List.length_append] at length
  refine ⟨by omega, fun short => ?_⟩
  -- Both spellings are the written ones, and nothing is left for the bytes behind them.
  have nothing : rest = [] := List.eq_nil_of_length_eq_zero (by omega)
  rw [form.split, same (by omega), same' (by omega), nothing, List.append_nil]
  rfl

/-! ## Main result -/

/-- Settings are read back, whatever follows them. The bytes that are written are the only shortest
ones among all that are read as the same settings; what was read from longer ones is read from them
again. -/
theorem encode_shortest :
    (∀ bytes c, decode bytes = .ok c ↔ ∃ capacity index rest, Form bytes c capacity index rest) ∧
    (∀ c : Config, c.capacity < 2 ^ 64 → ∀ rest, decode (encode c ++ rest) = .ok c) ∧
    ∀ bytes c, decode bytes = .ok c →
      decode (encode c) = decode bytes ∧ (encode c).length ≤ bytes.length ∧
        (bytes.length ≤ (encode c).length → bytes = encode c) := by
  have read (c : Config) (small : c.capacity < 2 ^ 64) (rest : List UInt8) :
    decode (encode c ++ rest) = .ok c :=
    decode_eq_ok_iff.mpr ⟨_, _, _, encode_form small rest⟩
  refine ⟨fun _ _ => decode_eq_ok_iff, read, ?_⟩
  intro bytes c decoded
  obtain ⟨capacity, index, rest, form⟩ := decode_eq_ok_iff.mp decoded
  have again := read c form.number_small []
  rw [List.append_nil] at again
  exact ⟨again.trans decoded.symm, form.shortest⟩

/-- The capacity 300 spelled with a group of zeros too much, and bytes that nobody looks at. -/
theorem encode_shortest_of_three_hundred :
    decode [172, 130, 0, 1, 9] = .ok ⟨300, .overwrite⟩ ∧ (300 : Nat) < 2 ^ 64 ∧
      encode ⟨300, .overwrite⟩ = [172, 2, 1] ∧
      decode (encode ⟨300, .overwrite⟩ ++ [9]) = .ok ⟨300, .overwrite⟩ ∧
      decode (encode ⟨300, .overwrite⟩) = decode [172, 130, 0, 1, 9] ∧
      (encode ⟨300, .overwrite⟩).length ≤ 5 := by
  obtain ⟨-, read, shorter⟩ := encode_shortest
  have decoded : decode [172, 130, 0, 1, 9] = .ok ⟨300, .overwrite⟩ := by decide +kernel
  obtain ⟨again, shorter, -⟩ := shorter _ _ decoded
  exact ⟨decoded, by decide, by decide +kernel, read _ (by decide) [9], again, shorter⟩

end Config.Binary

end RingQueue
