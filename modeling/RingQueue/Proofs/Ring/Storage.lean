import Mathlib.Data.List.Nodup
import RingQueue.Proofs.Ring.Words
import RingQueue.Ring.Storage

/-!
Live positions have slots of their own, and a larger block gets each of their entries once.

## Main result

`Storage.live_slots_apart_and_grown`: in a range of at most as many positions as there are slots,
writing, taking and dropping one position leaves the others alone; and growing puts the entry of the
`i`-th position into slot `i` of the new block, with one move for each position and none besides.

## Proof strategy

`Moving.Carried` says what has become of both blocks after a row of positions was moved, and is
shown by induction on the row. All that it asks of the row is that its positions have slots of their
own; for a range that is `Span.nodup_slots`.
-/
namespace RingQueue

/-! ## The positions of a range -/

namespace Span

variable {live : Span} {p : UInt64} {i : Nat}

/-- Up to the end no position wraps around. -/
theorem toNat_start_add (hi : i < live.length) :
    (live.start + UInt64.ofNat i).toNat = live.start.toNat + i := by
  have bound := live.stop.toNat_lt
  simp only [length] at hi
  rw [UInt64.toNat_add, UInt64.toNat_ofNat_of_lt' (by rw [UInt64.size]; omega)]
  omega

theorem mem_iff : p ∈ live ↔ live.start.toNat ≤ p.toNat ∧ p.toNat < live.stop.toNat := by
  change live.start ≤ p ∧ p < live.stop ↔ _
  rw [UInt64.le_iff_toNat_le, UInt64.lt_iff_toNat_lt]

theorem start_add_mem (hi : i < live.length) : live.start + UInt64.ofNat i ∈ live := by
  have place := toNat_start_add hi
  simp only [length] at hi
  rw [mem_iff]
  omega

theorem positions_eq (live : Span) :
    live.positions = (List.range live.length).map fun i => live.start + UInt64.ofNat i := by
  fun_induction positions live with
  | case1 live before ih =>
    have below := UInt64.lt_iff_toNat_lt.mp before
    have bound := live.stop.toNat_lt
    have next : (live.start + 1).toNat = live.start.toNat + 1 := WordRing.toNat_succ (by omega)
    have length : live.length = length ⟨live.start + 1, live.stop⟩ + 1 := by
      simp only [Span.length, next]
      omega
    rw [ih, length, List.range_succ_eq_map, List.map_cons, List.map_map]
    congr 1
    · exact (UInt64.add_zero live.start).symm
    · apply List.map_congr_left
      intro i hi
      change live.start + 1 + UInt64.ofNat i = live.start + UInt64.ofNat (i + 1)
      rw [UInt64.ofNat_add, UInt64.add_assoc, UInt64.add_comm 1]
      rfl
  | case2 live passed =>
    have empty : live.length = 0 := by
      rw [UInt64.lt_iff_toNat_lt] at passed
      simp only [length]
      omega
    rw [empty]
    rfl

theorem length_positions (live : Span) : live.positions.length = live.length := by
  rw [positions_eq, List.length_map, List.length_range]

theorem getElem_positions (hi : i < live.positions.length) :
    live.positions[i] = live.start + UInt64.ofNat i := by
  simp only [positions_eq, List.getElem_map, List.getElem_range]

/-- A loop meets the positions of the range, and no others. -/
theorem mem_positions : p ∈ live.positions ↔ p ∈ live := by
  rw [positions_eq, List.mem_map]
  constructor
  · rintro ⟨i, hi, rfl⟩
    exact start_add_mem (List.mem_range.mp hi)
  · intro inside
    have bounds := mem_iff.mp inside
    refine ⟨p.toNat - live.start.toNat, List.mem_range.mpr (by simp only [length]; omega), ?_⟩
    rw [← UInt64.toNat_inj, toNat_start_add (by simp only [length]; omega)]
    omega

end Span

namespace Storage

variable {α : Type} {s : Storage α} {live : Span} {p q : UInt64}

/-! ## Slots -/

theorem slotOf_lt (positive : 0 < s.capacity) (p : UInt64) : s.slotOf p < s.capacity.toNat := by
  rw [slotOf, UInt64.toNat_mod]
  exact Nat.mod_lt _ (UInt64.lt_iff_toNat_lt.mp positive)

theorem slotOf_inj (fits : live.length ≤ s.capacity.toNat) (hp : p ∈ live) (hq : q ∈ live) :
    s.slotOf p = s.slotOf q ↔ p = q := by
  have hp := Span.mem_iff.mp hp
  have hq := Span.mem_iff.mp hq
  simp only [Span.length] at fits
  -- A ring of this capacity has the same slots.
  have numbers := Ring.slotOf_inj (r := Ring.empty (α := α) s.capacity.toNat) (p := p.toNat)
    (q := q.toNat)
    live.start.toNat hp.1
  rw [← UInt64.toNat_inj, slotOf, slotOf, UInt64.toNat_mod, UInt64.toNat_mod]
  exact numbers (by change _ < _ + s.capacity.toNat; omega) hq.1
    (by change _ < _ + s.capacity.toNat; omega)

theorem nodup_slots (fits : live.length ≤ s.capacity.toNat) :
    (live.positions.map s.slotOf).Nodup := by
  rw [Span.positions_eq, List.map_map]
  refine List.Nodup.map_on ?_ List.nodup_range
  intro i hi j hj same
  have hi := List.mem_range.mp hi
  have hj := List.mem_range.mp hj
  have positions := (slotOf_inj fits (Span.start_add_mem hi) (Span.start_add_mem hj)).mp same
  rw [← UInt64.toNat_inj, Span.toNat_start_add hi, Span.toNat_start_add hj] at positions
  omega

theorem get_write (a : α) : (s.write p a).get q = if s.slotOf q = s.slotOf p then
    some a else s.get q :=
  Slots.get_set s.slots (s.slotOf p) (s.slotOf q) (some a)

theorem get_take : (s.take p).2.get q = if s.slotOf q = s.slotOf p then none else s.get q :=
  Slots.get_set s.slots (s.slotOf p) (s.slotOf q) none

/-! ## What one position has to do with the others -/

/-- In the range no position disturbs another. -/
structure KeepsApart (s : Storage α) (live : Span) : Prop where
  slots : ∀ p ∈ live, ∀ q ∈ live, s.slotOf p = s.slotOf q → p = q
  write : ∀ p ∈ live, ∀ a, ∀ q ∈ live, (s.write p a).get q = if q = p then some a else s.get q
  take : ∀ p ∈ live, ∀ q ∈ live, (s.take p).2.get q = if q = p then none else s.get q
  drop : ∀ p ∈ live, ∀ q ∈ live, (s.drop p).get q = if q = p then none else s.get q

theorem keepsApart (fits : live.length ≤ s.capacity.toNat) : s.KeepsApart live where
  slots p hp q hq := (slotOf_inj fits hp hq).mp
  write p hp a q hq := by simp only [get_write, slotOf_inj fits hq hp]
  take p hp q hq := by simp only [get_take, slotOf_inj fits hq hp]
  drop p hp q hq := by simp only [drop, get_take, slotOf_inj fits hq hp]

/-! ## Rows of positions -/

/-- The slots of a row of positions are vacant, and all others are as they were. -/
structure Vacated (s : Storage α) (positions : List UInt64) (s' : Storage α) : Prop where
  capacity : s'.capacity = s.capacity
  vacant : ∀ p ∈ positions, s'.get p = none
  untouched : ∀ slot, (∀ p ∈ positions, slot ≠ s.slotOf p) → s'.slots.get slot = s.slots.get slot

theorem vacated_nil (s : Storage α) : s.Vacated [] s := by
  refine ⟨rfl, ?_, fun _ _ => rfl⟩
  intro p hp
  cases hp

theorem Vacated.cons {s' : Storage α} {rest : List UInt64} (h : (s.drop p).Vacated rest s')
    (alone : s.slotOf p ∉ rest.map s.slotOf) : s.Vacated (p :: rest) s' := by
  have first : s'.get p = none := by
    have kept := h.untouched (s.slotOf p) fun q hq same => alone (same ▸ List.mem_map_of_mem hq)
    rw [get, slotOf, h.capacity]
    exact kept.trans (Slots.get_set_self s.slots (s.slotOf p) none)
  refine ⟨h.capacity, ?_, ?_⟩
  · intro q hq
    rcases List.mem_cons.mp hq with rfl | hq
    · exact first
    · exact h.vacant q hq
  · intro slot outside
    rw [h.untouched slot fun q hq => outside q (List.mem_cons_of_mem p hq)]
    exact (Slots.get_set s.slots (s.slotOf p) slot none).trans
      (if_neg (outside p List.mem_cons_self))

/-- Dropping an entry leaves the entries of other slots where they are. -/
theorem get_drop_of_alone {rest : List UInt64} (alone : s.slotOf p ∉ rest.map s.slotOf) :
    ∀ q ∈ rest, (s.drop p).get q = s.get q := by
  intro q hq
  rw [drop, get_take, if_neg]
  intro same
  exact alone (same ▸ List.mem_map_of_mem hq)

theorem dropAll_row (dropped : List (Option α)) (positions : List UInt64) (s : Storage α)
    (apart : (positions.map s.slotOf).Nodup) :
    ∃ s', s.dropAll dropped positions = (dropped ++ positions.map s.get, s') ∧
      s.Vacated positions s' := by
  induction positions generalizing dropped s with
  | nil => exact ⟨s, by rw [dropAll, List.map_nil, List.append_nil]; rfl, s.vacated_nil⟩
  | cons p rest ih =>
    obtain ⟨alone, apart⟩ := List.nodup_cons.mp apart
    obtain ⟨s', all, vacated⟩ := ih (dropped ++ [s.get p]) (s.drop p) apart
    have kept : rest.map (s.drop p).get = rest.map s.get :=
      List.map_congr_left (get_drop_of_alone alone)
    refine ⟨s', ?_, vacated.cons alone⟩
    change (s.drop p).dropAll (dropped ++ [s.get p]) rest = _
    rw [all, kept, List.append_assoc]
    rfl

end Storage

namespace Moving

variable {α : Type}

/-- A row of positions was moved to the slots from `first` on: what has become of both blocks. -/
structure Carried (m : Moving α) (first : Nat) (positions : List UInt64)
    (m' : Moving α) : Prop where
  old : m.old.Vacated positions m'.old
  moves : m'.moves =
    m.moves ++ (positions.zipIdx first).map fun (p, target) => ⟨m.old.slotOf p, target⟩
  capacity : m'.fresh.capacity = m.fresh.capacity
  placed : ∀ (i : Nat) (hi : i < positions.length),
    m'.fresh.slots.get (first + i) = m.old.get positions[i]
  elsewhere : ∀ slot, slot < first ∨ first + positions.length ≤ slot →
    m'.fresh.slots.get slot = m.fresh.slots.get slot

theorem carried_nil (m : Moving α) (first : Nat) : m.Carried first [] m := by
  refine ⟨m.old.vacated_nil, (List.append_nil m.moves).symm, rfl, ?_, fun _ _ => rfl⟩
  intro i hi
  cases hi

theorem Carried.cons {m m' : Moving α} {p : UInt64} {first : Nat} {rest : List UInt64}
    (h : (m.move p first).Carried (first + 1) rest m')
    (alone : m.old.slotOf p ∉ rest.map m.old.slotOf) :
    m.Carried first (p :: rest) m' := by
  refine ⟨h.old.cons alone, ?_, h.capacity, ?_, ?_⟩
  · rw [h.moves]
    exact List.append_assoc ..
  · intro i hi
    cases i with
    | zero =>
      rw [h.elsewhere _ (.inl (by omega))]
      exact Slots.get_set_self m.fresh.slots first (m.old.get p)
    | succ i =>
      have hi : i < rest.length := Nat.lt_of_succ_lt_succ hi
      have place : first + (i + 1) = first + 1 + i := by omega
      rw [place, h.placed i hi, List.getElem_cons_succ]
      exact Storage.get_drop_of_alone alone _ (List.getElem_mem hi)
  · intro slot outside
    rw [List.length_cons] at outside
    rw [h.elsewhere slot (by omega)]
    exact (Slots.get_set m.fresh.slots first slot (m.old.get p)).trans (if_neg (by omega))

/-- The loop over a row moves all of it. -/
theorem carried_moveAll (m : Moving α) (first : Nat) (positions : List UInt64)
    (apart : (positions.map m.old.slotOf).Nodup) :
    m.Carried first positions (m.moveAll first positions) := by
  induction positions generalizing m first with
  | nil => exact m.carried_nil first
  | cons p rest ih =>
    obtain ⟨alone, apart⟩ := List.nodup_cons.mp apart
    exact (ih (m.move p first) (first + 1) apart).cons alone

end Moving

/-! ## Rings -/

namespace WordRing

variable {α : Type} {w w' : WordRing α}

/-- What a ring does with its entries it does with the positions of its storage. -/
structure WorksOnStorage (w : WordRing α) : Prop where
  published : ∀ a w', w.publish a = some w' → w'.storage = w.storage.write w.write a
  extracted : w.read < w.visible → ∀ taken w', w.takeFront = some (taken, w') →
    (taken, w'.storage) = w.storage.take w.read
  -- Clearing drops the unread entries in their order.
  cleared : (w.storage.dropRange w.live).1.filterMap id = w.unreadBatch.toList

/-- A published entry is written at the position it claims. -/
theorem publish_storage {a : α} (h : w.publish a = some w') :
    w'.storage = w.storage.write w.write a := by
  simp only [publish] at h
  split at h
  · cases h
    rfl
  · cases h

/-- An entry is extracted from the position that `read` stands at. -/
theorem takeFront_storage (unread : w.read < w.visible) {taken : Option α}
    (h : w.takeFront = some (taken, w')) : (taken, w'.storage) = w.storage.take w.read := by
  have something : ¬ w.visible ≤ w.read := UInt64.not_le.mpr unread
  simp only [takeFront, if_neg something] at h
  repeat' split at h
  all_goals cases h
  rfl

/-- The loop over the live positions drops the entries that a ring drops when it is cleared. -/
theorem dropRange_live (w : WordRing α) (ordered : w.read ≤ w.visible)
    (fits : w.live.length ≤ w.capacity.toNat) :
    (w.storage.dropRange w.live).1.filterMap id = w.unreadBatch.toList := by
  obtain ⟨s', dropped, -⟩ := Storage.dropAll_row [] w.live.positions w.storage
    (Storage.nodup_slots fits)
  have count : w.unreadCount.toNat = w.live.length := UInt64.toNat_sub_of_le _ _ ordered
  rw [Storage.dropRange, dropped, List.nil_append, List.filterMap_map, Span.positions_eq,
    List.filterMap_map]
  simp only [Batch.toList, unreadBatch, count]
  rfl

theorem worksOnStorage (w : WordRing α) (ordered : w.read ≤ w.visible)
    (fits : w.live.length ≤ w.capacity.toNat) : w.WorksOnStorage where
  published _ _ := publish_storage
  extracted unread _ _ := takeFront_storage unread
  cleared := w.dropRange_live ordered fits

end WordRing

namespace Storage

variable {α : Type}

/-! ## Growing -/

/-- The entries of a range stand in the first slots of a larger block, and each was moved once. -/
structure Grown (s : Storage α) (live : Span) (capacity : UInt64) (m : Moving α) : Prop where
  resized : m.fresh.capacity = capacity
  placed : ∀ i, i < live.length → m.fresh.slots.get i = s.get (live.start + UInt64.ofNat i)
  vacant : ∀ slot, live.length ≤ slot → m.fresh.slots.get slot = none
  moves : m.moves = (List.range live.length).map fun i =>
    ⟨s.slotOf (live.start + UInt64.ofNat i), i⟩
  sources : (m.moves.map Relocation.source).Nodup
  targets : (m.moves.map Relocation.target).Nodup
  within : ∀ move ∈ m.moves, (∃ p ∈ live, move.source = s.slotOf p) ∧
    move.source < s.capacity.toNat ∧ move.target < capacity.toNat
  old : s.Vacated live.positions m.old

theorem zipIdx_positions (live : Span) :
    live.positions.zipIdx = (List.range live.length).map fun i =>
      (live.start + UInt64.ofNat i, i) := by
  rw [Span.positions_eq]
  apply List.ext_getElem
  · simp
  · intro i hi hi'
    simp

theorem grow_grown (s : Storage α) (live : Span) (positive : 0 < s.capacity)
    (fits : live.length ≤ s.capacity.toNat) {k : EntryKind α} {capacity : UInt64}
    (larger : s.capacity < capacity) (accepted : k.checkSlots capacity.toNat = .ok ()) :
    ∃ m, s.grow k capacity live = .ok m ∧ s.Grown live capacity m := by
  have larger := UInt64.lt_iff_toNat_lt.mp larger
  have slots := nodup_slots fits
  have carried := Moving.carried_moveAll ⟨s, ⟨capacity, .ofFn fun _ => none⟩, []⟩ 0
    live.positions slots
  have moves := carried.moves
  rw [zipIdx_positions, List.map_map, List.nil_append] at moves
  refine ⟨_, by rw [grow, accepted], carried.capacity, ?_, ?_, moves, ?_, ?_, ?_, carried.old⟩
  · intro i hi
    have placed := carried.placed i (by rwa [Span.length_positions])
    rwa [Nat.zero_add, Span.getElem_positions] at placed
  · intro slot behind
    rw [carried.elsewhere slot (.inr (by rw [Span.length_positions]; omega))]
    exact Slots.get_ofFn _ slot
  · rw [Span.positions_eq, List.map_map] at slots
    rw [moves, List.map_map]
    exact slots
  · rw [moves, List.map_map]
    exact (List.map_id _).symm ▸ List.nodup_range
  · rw [moves]
    intro move moved
    obtain ⟨i, hi, rfl⟩ := List.mem_map.mp moved
    have hi := List.mem_range.mp hi
    exact ⟨⟨_, Span.start_add_mem hi, rfl⟩, slotOf_lt positive _, by change i < _; omega⟩

/-- A ring that grows is built on the block to which its live entries are moved. -/
theorem Grown.reserve {w : WordRing α} {k : EntryKind α} {capacity : UInt64} {m : Moving α}
    (h : w.storage.Grown w.live capacity m) (ordered : w.read ≤ w.visible)
    (larger : w.capacity < capacity) (accepted : k.checkSlots capacity.toNat = .ok ()) :
    ∃ w', w.reserve k capacity = (.returned (), w') ∧ w'.capacity = m.fresh.capacity ∧
      ∀ slot, w'.slots.get slot = m.fresh.slots.get slot := by
  have count : w.unreadCount.toNat = w.live.length := UInt64.toNat_sub_of_le _ _ ordered
  refine ⟨.ofBatch capacity w.unreadBatch, ?_, h.resized.symm, ?_⟩
  · rw [WordRing.reserve, if_neg (UInt64.not_le.mpr larger), accepted]
  · intro slot
    refine (Slots.get_ofFn _ slot).trans ?_
    simp only [WordRing.unreadBatch, count]
    split
    · rename_i below
      exact (h.placed slot below).symm
    · rename_i above
      exact (h.vacant slot (Nat.not_lt.mp above)).symm

/-! ## Main result -/

/-- In a range of at most as many positions as there are slots, no position disturbs another, and a
larger block gets the entry of every position once, one slot after the other, unless there is no
such block. A ring works on its positions and grows in this way. -/
theorem live_slots_apart_and_grown (k : EntryKind α) (s : Storage α) (live : Span)
    (positive : 0 < s.capacity) (fits : live.length ≤ s.capacity.toNat) :
    s.KeepsApart live ∧
    (∀ p, p ∈ live.positions ↔ p ∈ live) ∧
    (∃ s', s.dropRange live = (live.positions.map s.get, s') ∧ s.Vacated live.positions s') ∧
    (∀ w : WordRing α, w.storage = s → w.live = live → w.read ≤ w.visible → w.WorksOnStorage) ∧
    ∀ capacity, s.capacity < capacity → capacity.toNat ≤ maxCapacity →
      (k.HasBlock capacity.toNat → ∃ m, s.grow k capacity live = .ok m ∧ s.Grown live capacity m ∧
        ∀ w : WordRing α, w.storage = s → w.live = live → w.read ≤ w.visible →
          ∃ w', w.reserve k capacity = (.returned (), w') ∧ w'.capacity = m.fresh.capacity ∧
            ∀ slot, w'.slots.get slot = m.fresh.slots.get slot) ∧
      (¬ k.HasBlock capacity.toNat → s.grow k capacity live = .error .layoutOverflow ∧
        ∀ w : WordRing α, w.storage = s → w.reserve k capacity =
          (.aborted .layoutOverflow, w)) := by
  refine ⟨keepsApart fits, fun _ => Span.mem_positions, dropAll_row [] live.positions s
    (nodup_slots fits), ?_, ?_⟩
  · rintro w rfl rfl ordered
    exact w.worksOnStorage ordered fits
  intro capacity larger bounded
  have larger' := UInt64.lt_iff_toNat_lt.mp larger
  constructor
  · intro block
    have accepted := (k.checkSlots_eq_ok_iff capacity.toNat).mpr ⟨by omega, bounded, block⟩
    obtain ⟨m, grown, all⟩ := s.grow_grown live positive fits larger accepted
    refine ⟨m, grown, all, ?_⟩
    rintro w rfl rfl ordered
    exact all.reserve ordered larger accepted
  · intro overflow
    have refused := EntryKind.checkSlots_of_too_many_bytes (k := k) (by omega) bounded overflow
    refine ⟨by rw [grow, refused], ?_⟩
    rintro w rfl
    have larger : ¬ capacity ≤ w.capacity := UInt64.not_le.mpr larger
    rw [WordRing.reserve, if_neg larger, refused]

/-- Five positions up to the greatest word, which go around the end of a block of six slots. -/
theorem live_slots_apart_and_grown_below_greatest_word :
    ∃ (s : Storage Nat) (live : Span),
      0 < s.capacity ∧ live.length ≤ s.capacity.toNat ∧ live.stop = 18446744073709551615 ∧
      s.KeepsApart live ∧
      ∃ m, s.grow .plain 8 live = .ok m ∧ m.moves = [⟨4, 0⟩, ⟨5, 1⟩, ⟨0, 2⟩, ⟨1, 3⟩, ⟨2, 4⟩] ∧
        (List.range 6).map m.fresh.slots.get =
          [some 14, some 15, some 10, some 11, some 12, none] := by
  let s : Storage Nat := ⟨6, .ofFn fun slot => some (10 + slot)⟩
  let live : Span := ⟨18446744073709551610, 18446744073709551615⟩
  obtain ⟨apart, -, -, -, grows⟩ := live_slots_apart_and_grown .plain s live (by decide) (by decide)
  obtain ⟨m, grown, all, -⟩ := (grows 8 (by decide) (by decide)).1 (by decide)
  refine ⟨s, live, by decide, by decide, rfl, apart, m, grown, all.moves.trans (by decide), ?_⟩
  change [m.fresh.slots.get 0, m.fresh.slots.get 1, m.fresh.slots.get 2, m.fresh.slots.get 3,
    m.fresh.slots.get 4, m.fresh.slots.get 5] = _
  rw [all.placed 0 (by decide), all.placed 1 (by decide), all.placed 2 (by decide),
    all.placed 3 (by decide), all.placed 4 (by decide), all.vacant 5 (by decide)]
  have filled (p : UInt64) : s.get p = some (10 + s.slotOf p) := Slots.get_ofFn _ _
  simp only [filled]
  decide

end Storage

end RingQueue
