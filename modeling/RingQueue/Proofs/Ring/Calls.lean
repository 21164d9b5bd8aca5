import RingQueue.Proofs.Ring.Front

/-!
What whole calls do to a ring at rest: requests for room, pushes of all kinds, and pops.

Each lemma names the outcome, the effects and the contents afterwards, for one of the two cases that
a call distinguishes: there is room, or there is none.
-/
namespace RingQueue.Ring.Holds

variable {α : Type} {r : Ring α} {c reserved : Nat} {a : α} {entries : List α}

/-! ## Requests for room -/

theorem request_room (h : r.Holds c entries reserved) (room : entries.length + reserved < c)
    (policy : OverflowPolicy) :
    ∃ r', r.request policy = .returned (.granted none) r' [] ∧
      r'.Holds c entries (reserved + 1) := by
  obtain ⟨r', admitted, holds⟩ := h.tryAdmission_room room
  refine ⟨r', ?_, holds⟩
  cases policy <;> simp only [request, evictUntilRoom, admitted]

theorem request_reject_full (h : r.Holds c entries reserved)
    (full : entries.length + reserved = c) : r.request .reject = .returned .denied r [] := by
  simp only [request, h.tryAdmission_full full]

theorem request_block_full (h : r.Holds c entries reserved)
    (full : entries.length + reserved = c) :
    r.request .block = ⟨.waiting, r, [.reported (.spinning c)]⟩ := by
  simp only [request, h.tryAdmission_full full, h.capacity]

/-- In a full ring exactly one entry has to make way. -/
theorem request_overwrite_full (h : r.Holds c (a :: entries) reserved)
    (full : (a :: entries).length + reserved = c) :
    ∃ r', r.request .overwrite = .returned (.granted (some a)) r' [.reported (.evicted c)] ∧
      r'.Holds c entries (reserved + 1) := by
  obtain ⟨left, taken, holds⟩ := h.takeFront_cons
  simp only [List.length_cons] at full
  obtain ⟨r', admitted, admittedHolds⟩ := holds.tryAdmission_room (by omega)
  refine ⟨r', ?_, admittedHolds⟩
  -- The first attempt is denied, and the one after the eviction is not.
  have denied := h.tryAdmission_full (by simpa using full)
  simp only [request, h.unreadCount, List.length_cons, evictUntilRoom, denied, taken, admitted,
    holds.capacity]
  rfl

/-- When all room belongs to entries that are still being made, there is nothing to evict. -/
theorem request_overwrite_unpublished (h : r.Holds c [] c) :
    r.request .overwrite = .waiting r := by
  have denied := h.tryAdmission_full (by simp)
  simp only [request, evictUntilRoom, denied, h.takeFront_nil]

/-! ## Pushes -/

theorem settle_made (h : r.Holds c entries (reserved + 1)) (evicted : Option α) (a : α) :
    ∃ r', r.settle evicted (.ok a) = .returned (.stored evicted) r' [] ∧
      r'.Holds c (entries ++ [a]) reserved := by
  obtain ⟨r', published, holds⟩ := h.publish a
  exact ⟨r', by simp only [settle, published], holds⟩

section Emplace

variable (make : Unit → Except Fault α)

theorem emplace_room (h : r.Holds c entries reserved) (room : entries.length + reserved < c)
    (policy : OverflowPolicy) (made : make () = .ok a) :
    ∃ r', r.emplace policy make = .returned (.stored none) r' [] ∧
      r'.Holds c (entries ++ [a]) reserved := by
  obtain ⟨admitted, granted, admittedHolds⟩ := h.request_room room policy
  obtain ⟨r', settled, holds⟩ := admittedHolds.settle_made none a
  refine ⟨r', ?_, holds⟩
  simp only [emplace, granted, Call.andThen_returned, made, settled, Call.after_nil]

theorem emplace_reject_full (h : r.Holds c entries reserved)
    (full : entries.length + reserved = c) : r.emplace .reject make = .returned .denied r [] := by
  simp only [emplace, h.request_reject_full full, Call.andThen_returned, Call.after_nil]

theorem emplace_block_full (h : r.Holds c entries reserved)
    (full : entries.length + reserved = c) :
    r.emplace .block make = ⟨.waiting, r, [.reported (.spinning c)]⟩ := by
  simp only [emplace, h.request_block_full full]
  rfl

theorem emplace_overwrite_full {oldest : α} (h : r.Holds c (oldest :: entries) reserved)
    (full : (oldest :: entries).length + reserved = c) (made : make () = .ok a) :
    ∃ r', r.emplace .overwrite make =
        .returned (.stored (some oldest)) r' [.reported (.evicted c)] ∧
      r'.Holds c (entries ++ [a]) reserved := by
  obtain ⟨admitted, granted, admittedHolds⟩ := h.request_overwrite_full full
  obtain ⟨r', settled, holds⟩ := admittedHolds.settle_made (some oldest) a
  refine ⟨r', ?_, holds⟩
  simp only [emplace, granted, Call.andThen_returned, made, settled]
  rfl

end Emplace

/-! ## Pops -/

theorem popFront_nil (h : r.Holds c [] reserved) : r.popFront = .returned none r [] := by
  simp only [popFront, h.takeFront_nil]

theorem popFront_cons (h : r.Holds c (a :: entries) reserved) :
    ∃ r', r.popFront = .returned (some a) r' [] ∧ r'.Holds c entries reserved := by
  obtain ⟨r', taken, holds⟩ := h.takeFront_cons
  exact ⟨r', by simp only [popFront, taken], holds⟩

/-- Pops take the oldest entries, as many as asked for or as there are. -/
theorem popMany (h : r.Holds c entries reserved) (limit : Nat) (done : List α) :
    ∃ r', Ring.popMany done limit r =
        .returned (done.reverse ++ entries.take limit) r' [] ∧
      r'.Holds c (entries.drop limit) reserved := by
  induction limit generalizing r entries done with
  | zero => exact ⟨r, by simp [Ring.popMany], h⟩
  | succ limit ih =>
    cases entries with
    | nil =>
      refine ⟨r, ?_, h⟩
      simp only [Ring.popMany, h.takeFront_nil, List.take_nil, List.append_nil]
    | cons a entries =>
      obtain ⟨left, taken, holds⟩ := h.takeFront_cons
      obtain ⟨r', popped, restHolds⟩ := ih holds (a :: done)
      refine ⟨r', ?_, restHolds⟩
      simp only [Ring.popMany, taken, popped, List.reverse_cons, List.append_assoc,
        List.singleton_append, List.take_succ_cons]

theorem drain (h : r.Holds c entries reserved) (limit : Option Nat) :
    ∃ r', r.drain limit = .returned (entries.take (limit.getD entries.length)) r' [] ∧
      r'.Holds c (entries.drop (limit.getD entries.length)) reserved := by
  obtain ⟨r', popped, holds⟩ := h.popMany (limit.getD entries.length) []
  refine ⟨r', ?_, holds⟩
  simpa only [Ring.drain, h.unreadCount, List.reverse_nil, List.nil_append] using popped

/-! ## Looking at the front -/

/-- The pin is at the front, and ending it brings the ring back. -/
theorem pin (h : r.Holds c entries reserved) :
    r.pin = some (r.freed, { r with read := .pinned }) ∧
      ({ r with read := .pinned } : Ring α).unpin r.freed = r :=
  ⟨h.serves.pin, unpin_pinned h.read⟩

theorem peek_ring {β : Type} (h : r.Holds c entries reserved) (look : α → Except Fault β) :
    (r.peek look).ring = r := by
  rw [h.serves.peek look]
  split
  · rfl
  · split <;> rfl

end RingQueue.Ring.Holds
