import RingQueue.Proofs.Ring.Endings
import RingQueue.Ring.Words

/-!
The ring in machine words does what the ring in numbers does, as long as no cursor reaches the
greatest word.

`WordRing.toRing` reads the words as numbers. Each operation on words is shown to be the one on
numbers under that reading; no sum wraps around and no position is taken for the mark of a pinned
front.
-/
namespace RingQueue

/-! ## The claim cursor -/

namespace Ring

variable {α : Type} {r r' : Ring α}

theorem tryAdmission_write (h : r.tryAdmission = some r') : r'.write = r.write := by
  simp only [tryAdmission] at h
  split at h
  · cases h
    rfl
  · cases h

theorem takeFront_write {a : Option α} (h : r.takeFront = some (a, r')) : r'.write = r.write := by
  simp only [takeFront] at h
  repeat' split at h
  all_goals cases h
  all_goals rfl

theorem evictUntilRoom_write (turns : Nat) (kept : Option α) (r : Ring α) :
    (r.evictUntilRoom turns kept).ring.write = r.write := by
  induction turns generalizing kept r with
  | zero => rfl
  | succ turns ih =>
    cases admitted : r.tryAdmission with
    | some r' =>
      simp only [evictUntilRoom, admitted]
      exact tryAdmission_write admitted
    | none =>
      simp only [evictUntilRoom, admitted]
      split
      · rename_i victim r' taken
        -- The first victim is kept; that makes no difference to the cursors.
        have write := takeFront_write taken
        cases kept with
        | none => exact (ih (some victim) r').trans write
        | some first => exact (ih (some first) r').trans write
      · rfl

theorem request_write (policy : OverflowPolicy) (r : Ring α) :
    (r.request policy).ring.write = r.write := by
  cases policy with
  | overwrite => exact evictUntilRoom_write _ none r
  | reject | block =>
    cases admitted : r.tryAdmission with
    | some r' =>
      simp only [request, admitted]
      exact tryAdmission_write admitted
    | none => simp only [request, admitted, Call.returned]

theorem settle_write_le (evicted : Option α) (made : Except Fault α) (r : Ring α) :
    (r.settle evicted made).ring.write ≤ r.write + 1 := by
  cases made with
  | error fault => exact Nat.le_succ r.write
  | ok a =>
    simp only [settle, publish]
    split
    · rename_i r' published
      split at published
      · cases published
        exact Nat.le_refl _
      · cases published
    · exact Nat.le_succ r.write

/-- A push claims at most one position. -/
theorem emplace_write_le (policy : OverflowPolicy) (make : Unit → Except Fault α) (r : Ring α) :
    (r.emplace policy make).ring.write ≤ r.write + 1 := by
  have asked := request_write policy r
  simp only [emplace, Call.andThen]
  split
  · rename_i room returned
    cases room with
    | denied => exact asked ▸ Nat.le_succ _
    | granted evicted => exact asked ▸ settle_write_le evicted (make ()) _
  · exact asked ▸ Nat.le_succ _
  · exact asked ▸ Nat.le_succ _

theorem popMany_write (done : List α) (limit : Nat) (r : Ring α) :
    (r.popMany done limit).ring.write = r.write := by
  induction limit generalizing done r with
  | zero => rfl
  | succ limit ih =>
    simp only [popMany]
    split
    · rfl
    · rename_i r' taken
      exact takeFront_write taken
    · rename_i a r' taken
      exact (ih (a :: done) r').trans (takeFront_write taken)

end Ring

namespace WordRing

variable {α β : Type} {w : WordRing α} {c reserved : Nat} {entries : List α}

/-! ## Words as numbers -/

theorem toNat_succ {n : UInt64} (small : n.toNat + 1 < 2 ^ 64) : (n + 1).toNat = n.toNat + 1 := by
  rw [UInt64.toNat_add, Nat.mod_eq_of_lt (by simpa using small)]
  rfl

theorem toNat_pred {n : UInt64} (positive : 0 < n.toNat) : (n - 1).toNat = n.toNat - 1 := by
  have one : (1 : UInt64) ≤ n := UInt64.le_iff_toNat_le.mpr positive
  rw [UInt64.toNat_sub_of_le _ _ one]
  rfl

theorem ne_pinMark {n : UInt64} (small : n.toNat < 2 ^ 64 - 1) : n ≠ pinMark := by
  rintro rfl
  revert small
  decide

theorem toRing_read (h : w.toRing.Holds c entries reserved) :
    w.read ≠ pinMark ∧ w.read.toNat = w.freed.toNat := by
  have read := h.read
  simp only [toRing] at read
  split at read
  · cases read
  · exact ⟨‹_›, by simpa using read⟩

theorem entry_toRing (w : WordRing α) (position : UInt64) :
    w.toRing.entry position.toNat = w.entry position := by
  simp only [Ring.entry, Ring.slotOf, entry, slotOf, toRing, UInt64.toNat_mod]

theorem setSlot_toRing (w : WordRing α) (position : UInt64) (content : Option α) :
    w.toRing.setSlot position.toNat content = w.setSlot position content := by
  simp only [Ring.setSlot, Ring.slotOf, setSlot, slotOf, toRing, UInt64.toNat_mod]

theorem len_toRing (w : WordRing α) : w.toRing.len = w.len.toNat := by
  simp only [Ring.len, len, toRing]
  split
  · rename_i less
    have := UInt64.lt_iff_toNat_lt.mp less
    omega
  · rename_i less
    have := UInt64.lt_iff_toNat_lt.not.mp less
    omega

/-! ## The steps of an entry -/

theorem tryAdmission_toRing (w : WordRing α) :
    (∃ w', w.tryAdmission = (true, w') ∧ w.toRing.tryAdmission = some w'.toRing) ∨
      (w.tryAdmission = (false, w) ∧ w.toRing.tryAdmission = none) := by
  by_cases full : w.capacity ≤ w.size
  · right
    have full' : ¬ w.toRing.size < w.toRing.capacity := by
      have := UInt64.le_iff_toNat_le.mp full
      simp only [toRing]
      omega
    -- A failed attempt raises the count and lowers it again, also across the greatest word.
    have undone : w.size + 1 - 1 = w.size := by simp
    refine ⟨?_, ?_⟩
    · simp only [tryAdmission, if_pos full, undone]
    · rw [Ring.tryAdmission, if_neg full']
  · left
    have room : w.toRing.size < w.toRing.capacity := by
      have := UInt64.le_iff_toNat_le.not.mp full
      simp only [toRing]
      omega
    have bound : w.size.toNat + 1 < 2 ^ 64 := Nat.lt_of_le_of_lt room w.capacity.toNat_lt
    refine ⟨{ w with size := w.size + 1 }, ?_, ?_⟩
    · simp only [tryAdmission, if_neg full]
    · rw [Ring.tryAdmission, if_pos room]
      simp only [toRing, toNat_succ bound]

theorem slotIsFree_toRing (w : WordRing α) (position : UInt64) :
    w.toRing.slotIsFree position.toNat = w.slotIsFree position := by
  rw [Bool.eq_iff_iff]
  simp only [Ring.slotIsFree, slotIsFree, Bool.or_eq_true, decide_eq_true_eq]
  simp only [toRing, UInt64.lt_iff_toNat_lt]
  by_cases early : position.toNat < w.capacity.toNat
  · simp only [early, true_or]
  · have late : w.capacity ≤ position := UInt64.le_iff_toNat_le.mpr (by omega)
    rw [UInt64.toNat_sub_of_le _ _ late]

theorem publish_toRing (small : w.write.toNat + 1 < 2 ^ 64) (a : α) :
    w.toRing.publish a = (w.publish a).map toRing := by
  have free := slotIsFree_toRing w w.write
  have turn : (w.toRing.visible = w.toRing.write) = (w.visible = w.write) := by
    simp only [toRing, UInt64.toNat_inj]
  have slots := setSlot_toRing w w.write (some a)
  simp only [Ring.publish, publish, turn]
  change (if w.toRing.slotIsFree w.write.toNat && decide (w.visible = w.write) then _ else _) = _
  rw [free]
  split
  · simp only [Option.map_some, toRing, toNat_succ small] at slots ⊢
    rw [← slots]
  · rfl

theorem takeFront_word_nil (h : w.toRing.Holds c [] reserved) :
    w.takeFront = some (none, w) := by
  obtain ⟨unpinned, freed⟩ := toRing_read h
  have visible : w.visible.toNat = w.freed.toNat + 0 := h.visible
  have nothing : w.visible ≤ w.read := UInt64.le_iff_toNat_le.mpr (by omega)
  simp only [takeFront, if_neg unpinned, if_pos nothing]

theorem takeFront_word_cons {a : α} (h : w.toRing.Holds c (a :: entries) reserved)
    (small : w.write.toNat < 2 ^ 64 - 1) :
    ∃ w', w.takeFront = some (some a, w') ∧ w.toRing.takeFront = some (some a, w'.toRing) ∧
      w'.toRing.Holds c entries reserved ∧ w'.write = w.write := by
  obtain ⟨unpinned, freed⟩ := toRing_read h
  have visible : w.visible.toNat = w.freed.toNat + (entries.length + 1) := h.visible
  have write : w.write.toNat = w.visible.toNat := h.write
  have size : w.size.toNat = entries.length + 1 + reserved := h.size
  -- The cursors are where the ring in numbers has them.
  have something : ¬ w.visible ≤ w.read := UInt64.le_iff_toNat_le.not.mpr (by omega)
  have same : w.freed = w.read := UInt64.toNat_inj.mp freed.symm
  -- The position after the one taken is at most `write`, so it is no mark.
  have next : (w.read + 1).toNat = w.read.toNat + 1 := toNat_succ (by omega)
  have unmarked : w.read + 1 ≠ pinMark := ne_pinMark (by omega)
  have lower : (w.size - 1).toNat = w.size.toNat - 1 := toNat_pred (by omega)
  obtain ⟨r, taken, holds⟩ := h.takeFront_cons
  have number : w.toRing.takeFront = some (w.entry w.read, toRing
      { w with
        slots := w.setSlot w.read none, read := w.read + 1, freed := w.read + 1,
        size := w.size - 1 }) := by
    have slots := setSlot_toRing w w.read none
    have found := entry_toRing w w.read
    simp only [toRing, if_neg unpinned] at slots found
    simp only [Ring.takeFront, toRing, if_neg unpinned, if_neg unmarked, next, lower, slots, found]
    rw [if_neg (by omega), if_pos freed.symm]
  rw [number] at taken
  simp only [Option.some.injEq, Prod.mk.injEq] at taken
  obtain ⟨oldest, rfl⟩ := taken
  refine ⟨_, ?_, ?_, holds, rfl⟩
  · simp only [takeFront, if_neg unpinned, if_neg something, if_pos same, oldest]
  · rw [number, oldest]

theorem front?_toRing (h : w.toRing.Holds c entries reserved) : w.toRing.front? = w.front? := by
  obtain ⟨unpinned, -⟩ := toRing_read h
  have read : w.toRing.read = .next w.read.toNat := by simp only [toRing, if_neg unpinned]
  have visible : (w.read.toNat < w.toRing.visible) = (w.read < w.visible) := by
    simp only [toRing, UInt64.lt_iff_toNat_lt]
  simp only [Ring.front?, read, front?, visible, entry_toRing]

/-! ## Calls -/

/-- A call on words has the outcome of a call on numbers and leaves the same ring. -/
def Agrees (p : Outcome β × WordRing α) (call : Call α β) : Prop :=
  p.1 = call.outcome ∧ p.2.toRing = call.ring

theorem Agrees.after {p : Outcome β × WordRing α} {call : Call α β} (h : Agrees p call)
    (effects : List (Effect α)) : Agrees p (call.after effects) := h

theorem evictUntilRoom_toRing (turns : Nat) (kept : Option α)
    (h : w.toRing.Holds c entries reserved) (small : w.write.toNat < 2 ^ 64 - 1) :
    Agrees (w.evictUntilRoom turns kept) (w.toRing.evictUntilRoom turns kept) := by
  induction turns generalizing w kept entries with
  | zero => exact ⟨rfl, rfl⟩
  | succ turns ih =>
    rcases tryAdmission_toRing w with ⟨w', admitted, admitted'⟩ | ⟨full, full'⟩
    · simp only [evictUntilRoom, admitted, Ring.evictUntilRoom, admitted']
      exact ⟨rfl, rfl⟩
    · simp only [evictUntilRoom, full, Ring.evictUntilRoom, full']
      cases entries with
      | nil =>
        simp only [takeFront_word_nil h, h.takeFront_nil]
        exact ⟨rfl, rfl⟩
      | cons a rest =>
        obtain ⟨w', taken, taken', holds, write⟩ := takeFront_word_cons h small
        have small' : w'.write.toNat < 2 ^ 64 - 1 := by rw [write]; exact small
        simp only [taken, taken']
        cases kept with
        | none => exact (ih (some a) holds small').after _
        | some first => exact (ih (some first) holds small').after _

theorem unreadCount_toRing (h : w.toRing.Holds c entries reserved) :
    w.unreadCount.toNat = w.toRing.unreadCount := by
  obtain ⟨-, freed⟩ := toRing_read h
  have visible : w.visible.toNat = w.freed.toNat + entries.length := h.visible
  have behind : w.read ≤ w.visible := UInt64.le_iff_toNat_le.mpr (by omega)
  rw [h.unreadCount, unreadCount, UInt64.toNat_sub_of_le _ _ behind]
  omega

theorem request_toRing (policy : OverflowPolicy) (h : w.toRing.Holds c entries reserved)
    (small : w.write.toNat < 2 ^ 64 - 1) :
    Agrees (w.request policy) (w.toRing.request policy) := by
  cases policy with
  | overwrite =>
    simp only [request, Ring.request, unreadCount_toRing h]
    exact evictUntilRoom_toRing _ none h small
  | reject | block =>
    rcases tryAdmission_toRing w with ⟨w', admitted, admitted'⟩ | ⟨full, full'⟩
    · simp only [request, admitted, Ring.request, admitted']
      exact ⟨rfl, rfl⟩
    · simp only [request, full, Ring.request, full']
      exact ⟨rfl, rfl⟩

theorem settle_toRing (evicted : Option α) (made : Except Fault α)
    (h : w.toRing.Holds c entries (reserved + 1)) (small : w.write.toNat < 2 ^ 64 - 1) :
    Agrees (w.settle evicted made) (w.toRing.settle evicted made) := by
  cases made with
  | ok a =>
    have published := publish_toRing (w := w) (by omega) a
    simp only [settle, Ring.settle, published]
    cases w.publish a with
    | none => exact ⟨rfl, rfl⟩
    | some w' => exact ⟨rfl, rfl⟩
  | error fault =>
    have size : w.size.toNat = entries.length + (reserved + 1) := h.size
    have lower : (w.size - 1).toNat = w.size.toNat - 1 := toNat_pred (by omega)
    refine ⟨rfl, ?_⟩
    change toRing { w with size := w.size - 1 } = { w.toRing with size := w.toRing.size - 1 }
    simp only [toRing, lower]

theorem emplace_toRing (policy : OverflowPolicy) (make : Unit → Except Fault α)
    (h : w.toRing.Holds c entries reserved) (small : w.write.toNat < 2 ^ 64 - 1) :
    Agrees (w.emplace policy make) (w.toRing.emplace policy make) := by
  have asked := request_toRing policy h small
  have write := Ring.request_write policy w.toRing
  rcases request : w.request policy with ⟨outcome, w'⟩
  rw [request] at asked
  obtain ⟨outcomes, rings⟩ := asked
  simp only at outcomes rings
  simp only [emplace, request, Ring.emplace, Call.andThen, ← outcomes, ← rings]
  -- Both go on with the same room, if they got any.
  cases outcome with
  | aborted fault => exact ⟨rfl, rfl⟩
  | waiting => exact ⟨rfl, rfl⟩
  | returned room =>
    cases room with
    | denied => exact ⟨rfl, rfl⟩
    | granted evicted =>
      obtain ⟨left, holds⟩ := h.request_granted policy outcomes.symm
      rw [← rings] at holds write
      have small' : w'.write.toNat < 2 ^ 64 - 1 := by
        change w'.write.toNat = w.write.toNat at write
        omega
      exact settle_toRing evicted (make ()) holds small'

theorem popMany_toRing (limit : Nat) (done : List α) (h : w.toRing.Holds c entries reserved)
    (small : w.write.toNat < 2 ^ 64 - 1) :
    Agrees (w.popMany done limit) (w.toRing.popMany done limit) := by
  induction limit generalizing w done entries with
  | zero => exact ⟨rfl, rfl⟩
  | succ limit ih =>
    cases entries with
    | nil =>
      simp only [popMany, takeFront_word_nil h, Ring.popMany, h.takeFront_nil]
      exact ⟨rfl, rfl⟩
    | cons a rest =>
      obtain ⟨w', taken, taken', holds, write⟩ := takeFront_word_cons h small
      simp only [popMany, taken, Ring.popMany, taken']
      exact ih (a :: done) holds (by rw [write]; exact small)

theorem popFront_toRing (h : w.toRing.Holds c entries reserved)
    (small : w.write.toNat < 2 ^ 64 - 1) : Agrees w.popFront w.toRing.popFront := by
  cases entries with
  | nil =>
    simp only [popFront, takeFront_word_nil h, Ring.popFront, h.takeFront_nil]
    exact ⟨rfl, rfl⟩
  | cons a rest =>
    obtain ⟨w', taken, taken', -⟩ := takeFront_word_cons h small
    simp only [popFront, taken, Ring.popFront, taken']
    exact ⟨rfl, rfl⟩

end WordRing

end RingQueue
