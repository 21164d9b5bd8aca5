import Mathlib.Tactic.Common
import RingQueue.Proofs.Protocol.Cursors
import RingQueue.Proofs.Ring.Contents

/-!
What the slots of a ring hold while threads are at work.

All entries that were ever claimed form one list, whose first entry has the position `first`. In the
round that begins at `freed` a slot holds the entry of its position, unless the owner has not
written it yet or the extractor has emptied it.
-/
namespace RingQueue.Protocol

variable {α : Type}

namespace Stage

/-- Has position `q` while its slot is vacant. -/
def vacates (q : Nat) : Stage α → Nat
  | claimed position _ false => single position q
  | extracting position (some _) => single position q
  | _ => 0

/-- The entry that a thread has outside of the slot, or is known to have put there. -/
def carries : Stage α → Option (Nat × α)
  | claimed position a _ => some (position, a)
  | extracting position (some a) => some (position, a)
  | _ => none

theorem vacates_le (q : Nat) (σ : Stage α) : σ.vacates q ≤ σ.owns q + σ.extracts q := by
  cases σ with
  | claimed position a filled => cases filled <;> simp [vacates, owns, extracts]
  | extracting position taken => cases taken <;> simp [vacates, owns, extracts]
  | _ => simp [vacates]

end Stage

open Stage

structure Occupancy (first : Nat) (entries : List α) (r : Ring α) (stages : List (Stage α)) :
    Prop where
  first_le : first ≤ r.freed
  write_eq : r.write = first + entries.length
  slots : ∀ q, r.freed ≤ q → q < r.freed + r.capacity →
    r.entry q = if tally (vacates q) stages = 0 then entries[q - first]? else none
  carried : ∀ σ ∈ stages, ∀ q a, σ.carries = some (q, a) → entries[q - first]? = some a

section Shifts

variable {front first i : Nat} {entries : List α} {r ring : Ring α} {stages : List (Stage α)}
  {σ τ : Stage α} {acts : List (Act α)}

theorem Cursors.vacates_le_sum (h : Cursors front r stages) (q : Nat) :
    tally (vacates q) stages ≤ window r.visible r.write q + window r.freed front q := by
  rw [← h.owners, ← h.extractors, ← tally_add]
  exact tally_le fun σ _ => Stage.vacates_le q σ

/-- Each position has at most one vacant slot, and only positions in use have one. -/
theorem Cursors.vacates_le (h : Cursors front r stages) (q : Nat) :
    tally (vacates q) stages ≤ window r.freed r.write q := by
  have freed_le := h.freed_le
  have front_le := h.front_le
  have visible_le := h.visible_le
  have below : window r.visible r.write q + window r.freed front q ≤ window r.freed r.write q := by
    simp only [window]
    split <;> split <;> split <;> omega
  exact Nat.le_trans (h.vacates_le_sum q) below

/-- The cursors and positions of a claim. -/
theorem Shift.claims (shift : Shift r σ ring τ acts) :
    (claimsIn acts).map Prod.fst = List.range' r.write (claimsIn acts).length ∧
      ring.write = r.write + (claimsIn acts).length := by
  cases shift <;> exact ⟨rfl, rfl⟩

theorem Shift.capacity (shift : Shift r σ ring τ acts) : ring.capacity = r.capacity := by
  cases shift <;> rfl

theorem Shift.visible_le (shift : Shift r σ ring τ acts) : r.visible ≤ ring.visible := by
  cases shift with
  | publish position a next =>
    subst next
    exact Nat.le_succ _
  | _ => exact Nat.le_refl _

/-- A new entry at the end changes no entry before it. -/
theorem carried_append (carried : ∀ σ ∈ stages, ∀ q a, σ.carries = some (q, a) →
    entries[q - first]? = some a) (more : List α) :
    ∀ σ ∈ stages, ∀ q a, σ.carries = some (q, a) → (entries ++ more)[q - first]? = some a := by
  intro σ member q a carries
  have inside := carried σ member q a carries
  rw [List.getElem?_append_left]
  · exact inside
  · exact (List.getElem?_eq_some_iff.mp inside).1

/-- The thread that changed its stage carries a known entry, too. -/
theorem carried_set (carried : ∀ σ ∈ stages, ∀ q a, σ.carries = some (q, a) →
    entries[q - first]? = some a)
    (now : ∀ q a, τ.carries = some (q, a) → entries[q - first]? = some a) :
    ∀ σ ∈ stages.set i τ, ∀ q a, σ.carries = some (q, a) → entries[q - first]? = some a := by
  intro σ member
  rcases List.mem_or_eq_of_mem_set member with before | rfl
  · exact carried σ before
  · exact now

/-- A step that leaves the slots alone and neither claims nor leaves a position. -/
theorem Occupancy.keep (h : Occupancy first entries r stages) (here : stages[i]? = some σ)
    (slots : ring.slots = r.slots) (capacity : ring.capacity = r.capacity)
    (freed : ring.freed = r.freed) (write : ring.write = r.write)
    (same : ∀ q, τ.vacates q = σ.vacates q) (empty_handed : τ.carries = none) :
    Occupancy first entries ring (stages.set i τ) where
  first_le := freed ▸ h.first_le
  write_eq := write ▸ h.write_eq
  slots := by
    intro q above below
    rw [tally_set_same (vacates q) here (same q)]
    simp only [Ring.entry, Ring.slotOf, slots, capacity]
    exact h.slots q (freed ▸ above) (freed ▸ capacity ▸ below)
  carried := carried_set h.carried fun q a carries => by rw [empty_handed] at carries; cases carries

theorem Occupancy.claim (h : Occupancy first entries r stages)
    (here : stages[i]? = some .admitted) (a : α) :
    Occupancy first (entries ++ [a]) { r with write := r.write + 1 }
      (stages.set i (.claimed r.write a false)) where
  first_le := h.first_le
  write_eq := by
    rw [List.length_append, List.length_singleton, ← Nat.add_assoc, ← h.write_eq]
  slots := by
    intro q above below
    have vacated := tally_set (vacates q) here (.claimed r.write a false)
    have first_le := h.first_le
    have write_eq := h.write_eq
    simp only [vacates] at vacated
    change r.freed ≤ q at above
    change r.entry q = _
    rw [h.slots q above below, List.getElem?_append]
    rcases Nat.lt_trichotomy q r.write with before | rfl | beyond
    · -- A position claimed before keeps its entry.
      rw [single_other (by omega), Nat.add_zero, Nat.add_zero] at vacated
      rw [vacated, if_pos (by omega : q - first < entries.length)]
    · -- The slot of the new position was vacant, and its owner has yet to write it.
      have unclaimed : entries[r.write - first]? = none := List.getElem?_eq_none (by omega)
      rw [single_self] at vacated
      rw [unclaimed, ite_self, if_neg (by omega)]
    · -- Nothing has been claimed further on.
      have unclaimed : entries[q - first]? = none := List.getElem?_eq_none (by omega)
      have after_it : [a][q - first - entries.length]? = none :=
        List.getElem?_eq_none (by simp; omega)
      rw [unclaimed, after_it, ite_self, ite_self, ite_self]
  carried := by
    apply carried_set (carried_append h.carried [a])
    rintro q b carries
    cases carries
    rw [h.write_eq, Nat.add_sub_cancel_left, List.getElem?_concat_length]

theorem Occupancy.fill (h : Occupancy first entries r stages) (cursors : Cursors front r stages)
    {position : Nat} {a : α} (here : stages[i]? = some (.claimed position a false)) :
    Occupancy first entries { r with slots := r.setSlot position (some a) }
      (stages.set i (.claimed position a true)) where
  first_le := h.first_le
  write_eq := h.write_eq
  slots := by
    intro q above below
    have member := List.mem_of_getElem? here
    have vacated := tally_set (vacates q) here (.claimed position a true)
    have owned := cursors.claimed member
    have fits := cursors.fits
    have freed_le := cursors.freed_le
    have front_le := cursors.front_le
    have once := Nat.le_trans (cursors.vacates_le q) (window_le_one _ _ _)
    simp only [vacates] at vacated
    change r.freed ≤ q at above
    change q < r.freed + r.capacity at below
    rw [Ring.entry_setSlot_window r.freed above below (by omega) (by omega), h.slots q above below]
    by_cases same : q = position
    · -- Nobody but the owner kept this slot vacant.
      subst same
      rw [single_self] at vacated
      rw [if_pos rfl, if_pos (by omega), h.carried _ member q a rfl]
    · rw [single_other (by omega), Nat.add_zero, Nat.add_zero] at vacated
      rw [if_neg same, vacated]
  carried := carried_set h.carried fun q b carries =>
    h.carried _ (List.mem_of_getElem? here) q b carries

theorem Occupancy.empty (h : Occupancy first entries r stages) (cursors : Cursors front r stages)
    {position : Nat} {a : α} (here : stages[i]? = some (.extracting position none))
    (entry : r.entry position = some a) :
    Occupancy first entries { r with slots := r.setSlot position none }
      (stages.set i (.extracting position (some a))) where
  first_le := h.first_le
  write_eq := h.write_eq
  slots := by
    intro q above below
    have vacated := tally_set (vacates q) here (.extracting position (some a))
    have extracted := cursors.extracting (List.mem_of_getElem? here)
    have fits := cursors.fits
    have front_le := cursors.front_le
    have visible_le := cursors.visible_le
    simp only [vacates] at vacated
    change r.freed ≤ q at above
    change q < r.freed + r.capacity at below
    rw [Ring.entry_setSlot_window r.freed above below (by omega) (by omega), h.slots q above below]
    by_cases same : q = position
    · -- From now on its extractor keeps the slot vacant.
      subst same
      rw [single_self] at vacated
      rw [if_pos rfl, if_neg (by omega)]
    · rw [single_other (by omega), Nat.add_zero, Nat.add_zero] at vacated
      rw [if_neg same, vacated]
  carried := by
    apply carried_set h.carried
    rintro q b carries
    cases carries
    -- The thread has what the slot held, which is the entry of the position.
    have extracted := cursors.extracting (List.mem_of_getElem? here)
    have fits := cursors.fits
    have front_le := cursors.front_le
    have visible_le := cursors.visible_le
    rw [h.slots position (by omega) (by omega)] at entry
    split at entry
    · exact entry
    · cases entry

theorem Occupancy.leave (h : Occupancy first entries r stages) (cursors : Cursors front r stages)
    {a : α} (here : stages[i]? = some (.extracting r.freed (some a))) :
    Occupancy first entries { r with freed := r.freed + 1 } (stages.set i .leaving) where
  first_le := Nat.le_succ_of_le h.first_le
  write_eq := h.write_eq
  slots := by
    intro q above below
    have first_le := h.first_le
    have write_eq := h.write_eq
    have fits := cursors.fits
    have vacated := tally_set (vacates q) here .leaving
    simp only [vacates] at vacated
    change r.freed + 1 ≤ q at above
    change q < r.freed + 1 + r.capacity at below
    change r.entry q = _
    rw [single_other (by omega), Nat.add_zero, Nat.add_zero] at vacated
    by_cases last : q < r.freed + r.capacity
    · rw [h.slots q (by omega) last, vacated]
    · -- The round now ends with the slot of the position that was left.
      have counted := le_tally (vacates r.freed) (List.mem_of_getElem? here)
      have wraps : r.slotOf q = r.slotOf r.freed := by
        have round : q = r.freed + r.capacity := by omega
        simp only [Ring.slotOf, round, Nat.add_mod_right]
      have extracted := cursors.extracting (List.mem_of_getElem? here)
      simp only [vacates, single_self] at counted
      have left := h.slots r.freed (Nat.le_refl _) (by omega)
      rw [if_neg (by omega)] at left
      rw [List.getElem?_eq_none (by omega), ite_self]
      simp only [Ring.entry, wraps]
      exact left
  carried := carried_set h.carried fun q a carries => by cases carries

/-- A claim adds an entry at the end; nothing else changes the list. -/
theorem Occupancy.shift (h : Occupancy first entries r stages) (cursors : Cursors front r stages)
    (here : stages[i]? = some σ) (shift : Shift r σ ring τ acts) :
    Occupancy first (entries ++ (claimsIn acts).map Prod.snd) ring (stages.set i τ) := by
  -- Four shifts reach the slots or the round; all others fall under `keep`.
  cases shift with
  | stay =>
    rw [set_same here]
    exact (List.append_nil entries).symm ▸ h
  | claim a => exact h.claim here a
  | fill position a => exact (List.append_nil entries).symm ▸ h.fill cursors here
  | empty position a entry => exact (List.append_nil entries).symm ▸ h.empty cursors here entry
  | leave position a next =>
    subst next
    exact (List.append_nil entries).symm ▸ h.leave cursors here
  | _ => exact (List.append_nil entries).symm ▸ h.keep here rfl rfl rfl rfl (fun _ => rfl) rfl

/-! ## Which slots are occupied -/

theorem Occupancy.entry_vacant (h : Occupancy first entries r stages) {position : Nat}
    (above : r.freed ≤ position) (below : position < r.freed + r.capacity) {σ : Stage α}
    (member : σ ∈ stages) (vacant : 0 < σ.vacates position) : r.entry position = none := by
  have counted := le_tally (vacates position) member
  rw [h.slots position above below, if_neg (by omega)]

theorem Occupancy.entry_occupied (h : Occupancy first entries r stages)
    (cursors : Cursors front r stages) {position : Nat} (above : r.freed ≤ position)
    (below : position < r.write) (filled : tally (vacates position) stages = 0) :
    ∃ a, r.entry position = some a := by
  have fits := cursors.fits
  have first_le := h.first_le
  have write_eq := h.write_eq
  have inside : position - first < entries.length := by omega
  refine ⟨entries[position - first], ?_⟩
  rw [h.slots position above (by omega), if_pos filled, List.getElem?_eq_getElem inside]

/-- The slot of an extracted position is occupied until its extractor takes the entry. -/
theorem Cursors.filled_of_extracting (h : Cursors front r stages) {position : Nat}
    (here : stages[i]? = some (.extracting position none)) :
    tally (vacates position) stages = 0 := by
  -- Without the extractor nobody would be left who could have vacated the slot.
  have extracting := h.extracting (List.mem_of_getElem? here)
  have front_le := h.front_le
  have vacated := tally_set_same (vacates position) here (b := .free) rfl
  have owned := tally_set_same (owns position) here (b := .free) rfl
  have extracted := tally_set (extracts position) here .free
  have below := tally_le fun σ (_ : σ ∈ stages.set i .free) => Stage.vacates_le position σ
  rw [tally_add] at below
  rw [h.owners, window_outside (by omega)] at owned
  rw [h.extractors, window_inside extracting.1 extracting.2] at extracted
  simp only [extracts, single_self] at extracted
  omega

/-- Published positions that are not extracted are occupied. -/
theorem Cursors.filled_of_unread (h : Cursors front r stages) {position : Nat}
    (above : front ≤ position) (below : position < r.visible) :
    tally (vacates position) stages = 0 := by
  have bound := h.vacates_le_sum position
  rw [window_outside (by omega), window_outside (by omega)] at bound
  omega

end Shifts

end RingQueue.Protocol
