import RingQueue.Proofs.Ring.Resting
import RingQueue.Ring.Checked

/-!
The arithmetic of a ring at rest in machine words has no flaws.

`WordRing.Rests` says what that takes: the words stand for a ring in numbers that is at rest, and no
more positions were claimed than there are below the greatest word. Each operation whose arithmetic
is looked at then does what it does on words without being looked at, and has one lemma that says
so.
-/
namespace RingQueue

open WordRing (Rests)

namespace Checked

variable {α β : Type} {w : WordRing α} {c reserved : Nat} {a : α} {entries : List α}

/-! ## Words -/

theorem plus_one {n : UInt64} (small : n.toNat < 2 ^ 64 - 1) : plus n 1 = pure (n + 1) := by
  rw [plus, if_pos]
  · rfl
  · rw [UInt64.toNat_one, UInt64.size]
    omega

theorem minus_eq {a b : UInt64} (le : b ≤ a) : minus a b = pure (a - b) := if_pos le

theorem minus_one {n : UInt64} (positive : 0 < n.toNat) : minus n 1 = pure (n - 1) :=
  minus_eq (UInt64.le_iff_toNat_le.mpr positive)

theorem unmarked_eq {position : UInt64} (small : position.toNat < 2 ^ 64 - 1) :
    unmarked position = pure position :=
  if_neg (WordRing.ne_pinMark small)

/-! ## Slots -/

theorem slotOf_eq (some_slot : w.capacity ≠ 0) (position : UInt64) :
    slotOf w position = pure (w.slotOf position) := if_neg some_slot

theorem entry_eq (some_slot : w.capacity ≠ 0) (position : UInt64) :
    entry w position = pure (w.entry position) := by
  rw [entry, slotOf_eq some_slot, pure_bind]
  rfl

theorem setSlot_eq (some_slot : w.capacity ≠ 0) (position : UInt64) (content : Option α) :
    setSlot w position content = pure (w.setSlot position content) := by
  rw [setSlot, slotOf_eq some_slot, pure_bind]
  rfl

theorem contents_eq (some_slot : w.capacity ≠ 0) (live : Span) :
    contents w live = pure ⟨live.length, fun i => (live.positions.map w.entry)[i]?.join⟩ := by
  have found : live.positions.mapM (entry w) = pure (live.positions.map w.entry) := by
    have each : entry w = fun position => pure (w.entry position) := funext (entry_eq some_slot)
    rw [each, List.mapM_pure]
  rw [contents, found, pure_bind, List.length_map, Span.length_positions]

/-! ## The steps of an entry -/

theorem tryAdmission_eq (h : w.Rests c entries reserved) : tryAdmission w =
    pure w.tryAdmission := by
  have size := h.size_le
  have small : w.size.toNat < 2 ^ 64 - 1 := Nat.lt_of_le_of_lt size (by decide)
  have raised : 0 < (w.size + 1).toNat := by
    rw [WordRing.toNat_succ (by omega)]
    omega
  rw [tryAdmission, plus_one small, pure_bind, minus_one raised, pure_bind, WordRing.tryAdmission]
  split <;> rfl

theorem returnAdmission_eq (h : w.Rests c entries (reserved + 1)) :
    returnAdmission w = pure w.returnAdmission := by
  have size : w.size.toNat = entries.length + (reserved + 1) := h.holds.size
  rw [returnAdmission, minus_one (by omega), pure_bind]
  rfl

theorem publish_eq (h : w.Rests c entries reserved) (a : α) : publish w a = pure (w.publish a) := by
  rw [publish, plus_one h.small, pure_bind, setSlot_eq h.some_slot, pure_bind, pure_bind,
    WordRing.publish]
  split <;> rfl

theorem takeFront_eq (h : w.Rests c entries reserved) : takeFront w = pure w.takeFront := by
  obtain ⟨last, visible, freed⟩ := h.read_add
  have size : w.size.toNat = entries.length + reserved := h.holds.size
  have small := h.small
  simp only [takeFront, WordRing.takeFront]
  split
  · rfl
  · split
    · rfl
    · rename_i unread
      -- Something is unread, so that the size counts it and the next position is claimed already.
      rw [UInt64.le_iff_toNat_le, visible] at unread
      have next : (w.read + 1).toNat = w.read.toNat + 1 := WordRing.toNat_succ (by omega)
      rw [plus_one h.read_small, pure_bind, unmarked_eq (by omega), pure_bind, entry_eq h.some_slot,
        pure_bind, setSlot_eq h.some_slot, pure_bind, pure_bind, minus_one (by omega), pure_bind]

theorem unpin_eq {position : UInt64} (small : position.toNat < 2 ^ 64 - 1) :
    unpin w position = pure (w.unpin position) := by
  rw [unpin, unmarked_eq small, pure_bind]

/-! ## Calls -/

theorem evictUntilRoom_eq (turns : Nat) (kept : Option α) (h : w.Rests c entries reserved) :
    evictUntilRoom turns kept w = pure (w.evictUntilRoom turns kept) := by
  induction turns generalizing w kept entries with
  | zero => rfl
  | succ turns ih =>
    rw [evictUntilRoom, tryAdmission_eq h, pure_bind]
    rcases WordRing.tryAdmission_toRing w with ⟨w', admitted, -⟩ | ⟨full, -⟩
    · simp only [admitted, WordRing.evictUntilRoom]
    · simp only [full, WordRing.evictUntilRoom, takeFront_eq h, pure_bind]
      cases entries with
      | nil => simp only [WordRing.takeFront_word_nil h.holds]
      | cons oldest rest =>
        obtain ⟨w', taken, -, holds, write⟩ := WordRing.takeFront_word_cons h.holds h.small
        simp only [taken]
        exact ih _ ⟨holds, h.positive, h.bounded, by rw [write]; exact h.small⟩

theorem request_eq (policy : OverflowPolicy) (h : w.Rests c entries reserved) :
    request policy w = pure (w.request policy) := by
  cases policy with
  | overwrite => exact evictUntilRoom_eq _ none h
  | reject | block =>
    simp only [request, WordRing.request, tryAdmission_eq h, pure_bind]
    rcases WordRing.tryAdmission_toRing w with ⟨w', admitted, -⟩ | ⟨full, -⟩
    · simp only [admitted]
    · simp only [full]

theorem settle_eq (evicted : Option α) (made : Except Fault α)
    (h : w.Rests c entries (reserved + 1)) :
    settle evicted made w = pure (w.settle evicted made) := by
  cases made with
  | error fault => simp only [settle, returnAdmission_eq h, pure_bind, WordRing.settle]
  | ok a =>
    simp only [settle, publish_eq h, pure_bind, WordRing.settle]
    cases w.publish a <;> rfl

theorem popFront_eq (h : w.Rests c entries reserved) : popFront w = pure w.popFront := by
  simp only [popFront, takeFront_eq h, pure_bind, WordRing.popFront]
  cases w.takeFront <;> rfl

theorem popMany_eq (limit : Nat) (done : List α) (h : w.Rests c entries reserved) :
    popMany done limit w = pure (w.popMany done limit) := by
  induction limit generalizing w done entries with
  | zero => rfl
  | succ limit ih =>
    simp only [popMany, takeFront_eq h, pure_bind, WordRing.popMany]
    cases entries with
    | nil => simp only [WordRing.takeFront_word_nil h.holds]
    | cons oldest rest =>
      obtain ⟨w', taken, -, holds, write⟩ := WordRing.takeFront_word_cons h.holds h.small
      simp only [taken]
      exact ih _ ⟨holds, h.positive, h.bounded, by rw [write]; exact h.small⟩

theorem drain_eq (limit : Option Nat) (h : w.Rests c entries reserved) : drain limit w =
    pure (w.drain limit) :=
  popMany_eq _ [] h

theorem front?_eq (h : w.Rests c entries reserved) : front? w = pure w.front? := by
  rw [front?, entry_eq h.some_slot, WordRing.front?]
  split <;> rfl

theorem peek_eq (look : α → Except Fault β) (h : w.Rests c entries reserved) :
    peek look w = pure (w.peek look) := by
  simp only [peek, WordRing.peek, h.pin_eq, unpin_eq h.read_small, pure_bind]
  split
  · rfl
  · rw [entry_eq (w := { w with read := WordRing.pinMark }) h.some_slot, pure_bind]
    cases WordRing.entry { w with read := WordRing.pinMark } w.read with
    | none => rfl
    | some a =>
      dsimp only
      cases look a <;> rfl

/-! ## Live ranges -/

theorem liveRange_eq (h : w.Rests c entries reserved) : liveRange w = pure w.live :=
  if_pos (decide_eq_true h.read_add.2.1)

/-- The length of the live range. -/
theorem minus_live (h : w.Rests c entries reserved) : minus w.live.stop w.live.start =
    pure w.unreadCount :=
  minus_eq h.read_le

theorem contents_range (some_slot : w.capacity ≠ 0) (live : Span)
    (ordered : live.start ≤ live.stop) :
    ∃ found, contents w live = pure found ∧
      Batch.Agrees ⟨(live.stop - live.start).toNat, fun i => w.entry (live.start + UInt64.ofNat i)⟩
        found := by
  have count : (live.stop - live.start).toNat = live.length := UInt64.toNat_sub_of_le _ _ ordered
  refine ⟨_, contents_eq some_slot live, count.symm, ?_⟩
  intro i hi
  have inside : i < live.positions.length := by
    rw [Span.length_positions, ← count]
    exact hi
  simp only [List.getElem?_map, List.getElem?_eq_getElem inside, Span.getElem_positions]
  rfl

theorem contents_live (h : w.Rests c entries reserved) :
    ∃ found, contents w w.live = pure found ∧ w.unreadBatch.Agrees found :=
  contents_range h.some_slot w.live h.read_le

theorem reserve_eq (k : EntryKind α) (capacity : UInt64) (h : w.Rests c entries reserved) :
    reserve k capacity w = pure (w.reserve k capacity) := by
  obtain ⟨found, all, agrees⟩ := contents_live h
  simp only [reserve, WordRing.reserve, liveRange_eq h, pure_bind, minus_live h, all]
  split
  · rfl
  · cases k.checkSlots capacity.toNat with
    | error fault => rfl
    | ok accepted =>
      -- The length is the count of the entries that were found.
      have len : UInt64.ofNat w.unreadBatch.count = w.unreadCount := UInt64.ofNat_toNat
      dsimp only
      rw [agrees.ofBatch, WordRing.ofBatch, len]

theorem clear_eq (k : EntryKind α) (h : w.Rests c entries reserved) :
    clear k w = pure (w.clear k) := by
  obtain ⟨found, all, agrees⟩ := contents_live h
  simp only [clear, liveRange_eq h, pure_bind, minus_live h, all, agrees.dropAll_fault,
    WordRing.clear]
  cases (k.dropAll w.unreadBatch).fault <;> rfl

theorem release_eq (k : EntryKind α) (h : w.Rests c entries reserved) :
    release k w = pure (w.release k) := by
  obtain ⟨found, all, agrees⟩ := contents_live h
  simp only [release, liveRange_eq h, pure_bind, all, agrees.dropAll_fault, WordRing.release]

/-! ## New rings -/

theorem prefilled_eq {capacity : UInt64} (positive : 0 < capacity.toNat) (entries : Batch α) :
    prefilled capacity entries = pure (.ofBatch capacity entries) := by
  refine if_neg ?_
  rintro rfl
  cases positive

theorem duplicate_eq (k : EntryKind α) (h : w.Rests c entries reserved) :
    duplicate k w = pure (w.duplicate k) := by
  have positive : 0 < w.capacity.toNat := Nat.lt_of_lt_of_eq h.positive h.holds.capacity.symm
  -- The pin is no hindrance to reading the slots.
  obtain ⟨found, all, agrees⟩ :=
    contents_range (w := { w with read := WordRing.pinMark }) h.some_slot
      ⟨w.read, w.visible⟩ h.read_le
  obtain ⟨faults, made⟩ := Batch.Agrees.cloneAll (b := w.unreadBatch) agrees k.cloning
  simp only [duplicate, h.pin_eq, unpin_eq h.read_small, pure_bind, all, faults]
  cases failed : (k.cloning.cloneAll w.unreadBatch).fault with
  | some fault =>
    rw [h.duplicate_failed failed]
    rfl
  | none =>
    rw [h.duplicate_made failed]
    simp only [prefilled_eq positive, pure_bind, made.ofBatch]
    rfl

theorem filled_eq (k : EntryKind α) (capacity : UInt64) (a : α) :
    filled k capacity a = pure (WordRing.filled k capacity a) := by
  cases accepted : k.checkSlots capacity.toNat with
  | error fault => simp only [filled, accepted, WordRing.filled]
  | ok _ =>
    obtain ⟨positive, -⟩ := (k.checkSlots_eq_ok_iff capacity.toNat).mp accepted
    simp only [filled, accepted, minus_one positive, pure_bind, prefilled_eq positive,
      WordRing.filled]
    cases (k.cloning.cloneAll (.replicate (capacity - 1).toNat a)).fault <;> rfl

end Checked

end RingQueue
