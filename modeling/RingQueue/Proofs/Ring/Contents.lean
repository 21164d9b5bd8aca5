import Mathlib.Data.Nat.ModEq
import Mathlib.Tactic.Common
import RingQueue.Ring.Access
import RingQueue.Ring.Whole

/-!
What a ring at rest contains, and what each operation does to it.

`Ring.Holds` ties the five cursors and the content of every slot to a list of unread entries and to
a number of admissions that have not been published. Every operation has one lemma that says how it
changes the two; after that the cursors need not be looked at any more.

Whoever takes or looks at the front needs less: `Ring.Serves` says which entries are unread while
nobody extracts or looks, wherever the pushes stand that are under way.
-/
namespace RingQueue

variable {α : Type}

namespace Batch

/-- Every place of the batch holds an entry. -/
def Full (b : Batch α) : Prop := ∀ i, i < b.count → (b.entry i).isSome

theorem full_empty : (empty : Batch α).Full := by
  intro i hi
  cases hi

theorem filterMap_range_full (entry : Nat → Option α) (count : Nat)
    (full : ∀ i, i < count → (entry i).isSome) :
    ((List.range count).filterMap entry).length = count ∧
      ∀ i, i < count → ((List.range count).filterMap entry)[i]? = entry i := by
  induction count with
  | zero => simp
  | succ count ih =>
    obtain ⟨length, get⟩ := ih fun i hi => full i (by omega)
    -- The last place holds an entry, so it adds exactly one.
    obtain ⟨a, last⟩ := Option.isSome_iff_exists.mp (full count (by omega))
    have split : (List.range (count + 1)).filterMap entry =
        (List.range count).filterMap entry ++ [a] := by
      simp [List.range_succ, last]
    rw [split]
    refine ⟨by simp [length], ?_⟩
    intro i hi
    rcases Nat.lt_succ_iff_lt_or_eq.mp hi with below | rfl
    · rw [List.getElem?_append_left (by omega), get i below]
    · rw [List.getElem?_append_right (by omega), length, last]
      simp

theorem length_toList {b : Batch α} (full : b.Full) : b.toList.length = b.count :=
  (filterMap_range_full b.entry b.count full).1

theorem getElem?_toList {b : Batch α} (full : b.Full) {i : Nat} (hi : i < b.count) :
    b.toList[i]? = b.entry i :=
  (filterMap_range_full b.entry b.count full).2 i hi

/-- A batch is known by the list whose entries it gives, one place after the other. -/
theorem toList_eq_of_getElem? {b : Batch α} {entries : List α} (count : b.count = entries.length)
    (get : ∀ i, i < b.count → b.entry i = entries[i]?) : b.toList = entries := by
  have full : b.Full := by
    intro i hi
    rw [get i hi, List.getElem?_eq_getElem (by omega)]
    rfl
  apply List.ext_getElem?
  intro i
  by_cases hi : i < b.count
  · rw [getElem?_toList full hi, get i hi]
  · have length := length_toList full
    rw [List.getElem?_eq_none (by omega), List.getElem?_eq_none (by omega)]

end Batch

namespace Ring

/-! ## Slots -/

/-- Positions less than one round apart have slots of their own. -/
theorem slotOf_inj {r : Ring α} {p q : Nat} (first : Nat) (hp : first ≤ p)
    (hp' : p < first + r.capacity) (hq : first ≤ q) (hq' : q < first + r.capacity) :
    r.slotOf p = r.slotOf q ↔ p = q := by
  constructor
  · intro same
    apply Nat.ModEq.eq_of_abs_lt same
    rw [abs_lt]
    omega
  · rintro rfl
    rfl

/-- A write reaches the positions of one slot. -/
theorem entry_setSlot (r : Ring α) (p q : Nat) (content : Option α) :
    { r with slots := r.setSlot q content }.entry p =
      if r.slotOf p = r.slotOf q then content else r.entry p := by
  exact Slots.get_set r.slots (r.slotOf q) (r.slotOf p) content

/-- Within one round a write reaches its own position only. -/
theorem entry_setSlot_window {r : Ring α} {p q : Nat} (first : Nat) (hp : first ≤ p)
    (hp' : p < first + r.capacity) (hq : first ≤ q) (hq' : q < first + r.capacity)
    (content : Option α) :
    { r with slots := r.setSlot q content }.entry p = if p = q then content else r.entry p := by
  simp only [entry_setSlot, slotOf_inj first hp hp' hq hq']

/-! ## Rings that serve their front -/

/-- Nothing is being extracted or looked at, and these entries are published and unread, the oldest
first. -/
structure Serves (r : Ring α) (entries : List α) : Prop where
  read : r.read = .next r.freed
  visible : r.visible = r.freed + entries.length
  fits : entries.length ≤ r.capacity
  slots : ∀ i, i < entries.length → r.entry (r.freed + i) = entries[i]?

namespace Serves

variable {r : Ring α} {a : α} {entries : List α}

theorem front (h : r.Serves entries) : r.front = r.freed := by
  simp only [Ring.front, h.read]

theorem unreadCount (h : r.Serves entries) : r.unreadCount = entries.length := by
  have visible := h.visible
  simp only [Ring.unreadCount, h.front]
  omega

theorem unread (h : r.Serves entries) : r.unread = entries := by
  apply Batch.toList_eq_of_getElem?
  · exact h.unreadCount
  · intro i hi
    have count := h.unreadCount
    simp only [unreadBatch] at hi ⊢
    rw [h.front, h.slots i (by omega)]

theorem oldest (h : r.Serves (a :: entries)) : r.entry r.freed = some a ∧ r.freed < r.visible := by
  have visible := h.visible
  have first := h.slots 0 (by simp)
  rw [List.length_cons] at visible
  exact ⟨by simpa using first, by omega⟩

theorem front? (h : r.Serves entries) : r.front? = entries.head? := by
  have visible := h.visible
  simp only [Ring.front?, h.read]
  cases entries with
  | nil => exact if_neg (by simp at visible; omega)
  | cons a rest =>
    obtain ⟨first, published⟩ := h.oldest
    rw [if_pos published, first]
    rfl

theorem takeFront_nil (h : r.Serves []) : r.takeFront = some (none, r) := by
  have visible := h.visible
  simp only [takeFront, h.read]
  rw [if_pos (by simp at visible; omega)]

theorem takeFront_eq (h : r.Serves (a :: entries)) :
    r.takeFront = some (some a, { r with
      slots := r.setSlot r.freed none, read := .next (r.freed + 1), freed := r.freed + 1,
      size := r.size - 1 }) := by
  obtain ⟨first, published⟩ := h.oldest
  simp only [takeFront, h.read, first]
  rw [if_neg (by omega), if_pos trivial]

theorem takeFront_cons (h : r.Serves (a :: entries)) :
    ∃ r', r.takeFront = some (some a, r') ∧ r'.Serves entries := by
  refine ⟨_, h.takeFront_eq, rfl, ?_, ?_, ?_⟩
  · have visible := h.visible
    simp only [List.length_cons] at visible ⊢
    omega
  · exact Nat.le_of_succ_le h.fits
  · intro i hi
    have fits := h.fits
    have slot := h.slots (i + 1) (by simp; omega)
    simp only [List.length_cons] at fits
    change Ring.entry { r with slots := r.setSlot r.freed none } (r.freed + 1 + i) = _
    rw [entry_setSlot_window r.freed (by omega) (by omega) (by omega) (by omega), if_neg (by omega),
      Nat.add_right_comm, Nat.add_assoc, slot]
    simp

/-- Whoever gets to publish an entry puts it behind all that are unread. -/
theorem publish (h : r.Serves entries) {r' : Ring α} (published : r.publish a = some r') :
    r'.Serves (entries ++ [a]) := by
  obtain ⟨read, visible, fits, slots⟩ := h
  unfold Ring.publish at published
  split at published
  · rename_i turn
    cases published
    -- The slot is free, so the new position is less than one round behind the front.
    simp only [slotIsFree, Bool.and_eq_true, Bool.or_eq_true, decide_eq_true_eq] at turn
    refine ⟨read, ?_, ?_, ?_⟩
    · simp only [List.length_append, List.length_singleton]
      omega
    · simp only [List.length_append, List.length_singleton]
      omega
    · intro i hi
      rw [List.length_append, List.length_singleton] at hi
      change Ring.entry { r with slots := r.setSlot r.write (some a) } (r.freed + i) = _
      rw [entry_setSlot_window r.freed (by omega) (by omega) (by omega) (by omega)]
      by_cases last : i = entries.length
      · rw [if_pos (by omega), last]
        simp
      · rw [if_neg (by omega), slots i (by omega), List.getElem?_append_left (by omega)]
  · cases published

end Serves

/-! ## Rings at rest -/

/-- The ring is at rest with `c` slots: it holds these unread entries, the oldest first, and has
given out so many admissions that are not published yet. -/
structure Holds (r : Ring α) (c : Nat) (entries : List α) (reserved : Nat) : Prop where
  capacity : r.capacity = c
  size : r.size = entries.length + reserved
  fits : entries.length + reserved ≤ c
  read : r.read = .next r.freed
  visible : r.visible = r.freed + entries.length
  write : r.write = r.visible
  slots : ∀ i, i < c → r.entry (r.freed + i) = entries[i]?

namespace Holds

variable {r : Ring α} {c reserved : Nat} {a : α} {entries : List α}

theorem serves (h : r.Holds c entries reserved) : r.Serves entries := by
  have fits := h.fits
  refine ⟨h.read, h.visible, ?_, fun i hi => h.slots i (by omega)⟩
  rw [h.capacity]
  omega

theorem front (h : r.Holds c entries reserved) : r.front = r.freed := h.serves.front

theorem unreadCount (h : r.Holds c entries reserved) : r.unreadCount = entries.length :=
  h.serves.unreadCount

theorem unread (h : r.Holds c entries reserved) : r.unread = entries := h.serves.unread

theorem len (h : r.Holds c entries reserved) : r.len = entries.length + reserved := by
  have fits := h.fits
  simp only [Ring.len, h.size, h.capacity]
  omega

theorem front? (h : r.Holds c entries reserved) : r.front? = entries.head? := h.serves.front?

end Holds

/-! ## Fresh rings -/

theorem holds_ofBatch {c : Nat} {b : Batch α} (full : b.Full) (fits : b.count ≤ c) :
    (ofBatch c b).Holds c b.toList 0 where
  capacity := rfl
  size := by simp [ofBatch, Batch.length_toList full]
  fits := by simpa [Batch.length_toList full] using fits
  read := rfl
  visible := by simp [ofBatch, Batch.length_toList full]
  write := rfl
  slots := by
    intro i hi
    have slot : (ofBatch c b).slotOf (0 + i) = i := by
      simp only [slotOf, ofBatch, Nat.zero_add, Nat.mod_eq_of_lt hi]
    change (ofBatch c b).slots.get ((ofBatch c b).slotOf (0 + i)) = _
    rw [slot]
    simp only [ofBatch, Slots.get_ofFn]
    split
    · exact (Batch.getElem?_toList full ‹_›).symm
    · have length := Batch.length_toList full
      rw [List.getElem?_eq_none (by omega)]

theorem holds_empty (c : Nat) : (Ring.empty c : Ring α).Holds c [] 0 :=
  holds_ofBatch Batch.full_empty (Nat.zero_le c)

/-! ## The steps of an entry -/

namespace Holds

variable {r : Ring α} {c reserved : Nat} {a : α} {entries : List α}

theorem tryAdmission_eq (h : r.Holds c entries reserved) (room : entries.length + reserved < c) :
    r.tryAdmission = some { r with size := r.size + 1 } := by
  rw [tryAdmission, if_pos (by rw [h.size, h.capacity]; exact room)]

theorem tryAdmission_room (h : r.Holds c entries reserved) (room : entries.length + reserved < c) :
    ∃ r', r.tryAdmission = some r' ∧ r'.Holds c entries (reserved + 1) := by
  refine ⟨_, h.tryAdmission_eq room, ?_⟩
  exact { h with
    size := by simp only [h.size]; omega
    fits := by omega }

theorem tryAdmission_full (h : r.Holds c entries reserved) (full : entries.length + reserved = c) :
    r.tryAdmission = none := by
  rw [tryAdmission, if_neg (by rw [h.size, h.capacity]; omega)]

theorem returnAdmission (h : r.Holds c entries (reserved + 1)) :
    r.returnAdmission.Holds c entries reserved := by
  have fits := h.fits
  exact { h with
    size := by simp only [Ring.returnAdmission, h.size]; omega
    fits := by omega }

theorem publish (h : r.Holds c entries (reserved + 1)) (a : α) :
    ∃ r', r.publish a = some r' ∧ r'.Holds c (entries ++ [a]) reserved := by
  obtain ⟨capacity, size, fits, read, visible, write, slots⟩ := h
  subst capacity
  -- An admission that is not published leaves a slot between `write` and the end of the round.
  have free : r.slotIsFree r.write = true := by
    simp only [slotIsFree, Bool.or_eq_true, decide_eq_true_eq]
    omega
  refine ⟨{ r with
    slots := r.setSlot r.write (some a), write := r.write + 1, visible := r.write + 1 }, ?_, ?_⟩
  · rw [Ring.publish, free, write]
    simp
  · refine ⟨rfl, ?_, ?_, read, ?_, rfl, ?_⟩
    · simp only [size, List.length_append, List.length_singleton]; omega
    · simp only [List.length_append, List.length_singleton]; omega
    · simp only [List.length_append, List.length_singleton]; omega
    · intro i hi
      change Ring.entry { r with slots := r.setSlot r.write (some a) } (r.freed + i) = _
      rw [entry_setSlot_window r.freed (by omega) (by omega) (by omega) (by omega),
        List.getElem?_append]
      -- Entries before the new one, the new one, and the vacant slots after it.
      rcases Nat.lt_trichotomy i entries.length with below | same | above
      · rw [if_neg (by omega), slots i hi, if_pos below]
      · rw [if_pos (by omega), if_neg (by omega), same]
        simp
      · rw [if_neg (by omega), slots i hi, if_neg (by omega),
          List.getElem?_eq_none (by omega), List.getElem?_eq_none (by simp; omega)]

theorem takeFront_nil (h : r.Holds c [] reserved) : r.takeFront = some (none, r) :=
  h.serves.takeFront_nil

theorem takeFront_cons (h : r.Holds c (a :: entries) reserved) :
    ∃ r', r.takeFront = some (some a, r') ∧ r'.Holds c entries reserved := by
  refine ⟨_, h.serves.takeFront_eq, ?_⟩
  obtain ⟨capacity, size, fits, read, visible, write, slots⟩ := h
  subst capacity
  simp only [List.length_cons] at size fits visible
  refine ⟨rfl, ?_, ?_, rfl, ?_, write, ?_⟩
  · simp only [size]; omega
  · omega
  · simp only [visible]; omega
  · intro i hi
    change Ring.entry { r with slots := r.setSlot r.freed none } (r.freed + 1 + i) = _
    by_cases last : i + 1 < r.capacity
    · rw [entry_setSlot_window r.freed (by omega) (by omega) (by omega) (by omega),
        if_neg (by omega), Nat.add_right_comm, Nat.add_assoc, slots (i + 1) last]
      simp
    · -- One round further on lies the slot that has just been emptied.
      have wraps : r.slotOf (r.freed + 1 + i) = r.slotOf r.freed := by
        have round : r.freed + 1 + i = r.freed + r.capacity := by omega
        simp only [slotOf, round, Nat.add_mod_right]
      rw [entry_setSlot, if_pos wraps, List.getElem?_eq_none (by omega)]

end Holds

end Ring

end RingQueue
