import Mathlib.Tactic.Common
import RingQueue.Proofs.Protocol.Invariant

/-!
Slots are written while vacant and taken while occupied, whatever the threads do.

`System.SlotsOwned` says it of one state, for the accesses that are about to be made and for every
step from there. The result is `reachable_slots_owned`: any number of threads may push by any
policy, pop, look at the front and duplicate it, in any interleaving.
-/
namespace RingQueue.Protocol

variable {α : Type}

namespace System

/-- The front is at this position: `read` is, or it is pinned there. -/
def ReadsAt (s : System α) (position : Nat) : Prop :=
  s.ring.read = .next position ∨
    s.ring.read = .pinned ∧ ∃ thread ∈ s.threads, thread.point.stage = .pinning position

/-- The positions claimed and not released. A position is released once `size` has been lowered for
it, so one that `freed` has passed still counts while its thread is about to do that. -/
def unreleased (s : System α) : Nat :=
  (s.ring.write - s.ring.freed) + tally Stage.leaves s.stages

/-- The admissions for which no position has been claimed. -/
def unclaimed (s : System α) : Nat := tally Stage.reserves s.stages

/-- The attempts that found no room and are not undone. -/
def failing (s : System α) : Nat := tally Stage.fails s.stages

/-- The thread has extracted the position and not left its slot. -/
def Extracting (s : System α) (i position : Nat) : Prop :=
  ∃ thread taken, s.threads[i]? = some thread ∧ thread.point.stage = .extracting position taken

/-- The slot of the position is being read by a peek or by a duplication. -/
def Reading (s : System α) (position : Nat) : Prop :=
  ∃ thread ∈ s.threads, ∃ pinned next stop clones visit,
    thread.point = .cloneSlot pinned next stop clones visit ∧ pinned ≤ position ∧ position < stop

/-- A step does to the slots what a thread may do at its point: write a vacant one, or empty an
occupied one. -/
def SlotStep (s t : System α) : Prop :=
  t.ring.slots = s.ring.slots ∨
  ∃ thread ∈ s.threads,
    (∃ position push kept, thread.point = .fillSlot position push kept ∧
      s.ring.entry position = none ∧
      t.ring.slots = s.ring.setSlot position (some push.value)) ∨
    ∃ position errand a, thread.point = .emptySlot position errand ∧
      s.ring.entry position = some a ∧ t.ring.slots = s.ring.setSlot position none

structure SlotsOwned (s : System α) : Prop where
  ordered : ∃ read, s.ReadsAt read ∧ (∀ other, s.ReadsAt other → other = read) ∧
    s.ring.freed ≤ read ∧ read ≤ s.ring.visible ∧ s.ring.visible ≤ s.ring.write ∧
    s.ring.write ≤ s.ring.freed + s.ring.capacity
  size_eq : s.ring.size = s.unreleased + s.unclaimed + s.failing
  admitted_le : s.unreleased + s.unclaimed ≤ s.ring.capacity
  written_vacant : ∀ thread ∈ s.threads, ∀ position push kept,
    thread.point = .fillSlot position push kept → s.ring.entry position = none
  taken_occupied : ∀ thread ∈ s.threads, ∀ position errand,
    thread.point = .emptySlot position errand → ∃ a, s.ring.entry position = some a
  sole_extractor : ∀ i j position, s.Extracting i position → s.Extracting j position → i = j
  extracted_once : (extractionsIn s.acts).Nodup
  slot_step : ∀ t, Step s t → s.SlotStep t
  reading_occupied : ∀ position, s.Reading position → ∃ a, s.ring.entry position = some a
  reading_undisturbed : ∀ position, s.Reading position → ∀ t, Step s t →
    t.ring.entry position = s.ring.entry position
  slot_free : ∀ thread ∈ s.threads, ∀ position push kept,
    thread.point = .awaitSlot position push kept → s.ring.slotIsFree position = true

end System

open Stage

/-! ## One turn -/

/-- Only two accesses reach the slots. -/
theorem Turn.slots {r ring : Ring α} {thread thread' : Thread α} {acts : List (Act α)}
    (turn : Turn r thread ring thread' acts) :
    ring.slots = r.slots ∨
    (∃ position push kept, thread.point = .fillSlot position push kept ∧
      ring.slots = r.setSlot position (some push.value)) ∨
    ∃ position errand a, thread.point = .emptySlot position errand ∧
      r.entry position = some a ∧ ring.slots = r.setSlot position none := by
  cases turn with
  | call => exact .inl rfl
  | access todo answers leads =>
    cases leads with
    | fill position push kept => exact .inr (.inl ⟨position, push, kept, rfl, rfl⟩)
    | empty position errand a entry =>
      exact .inr (.inr ⟨position, errand, a, rfl, entry, rfl⟩)
    | _ => exact .inl rfl

/-! ## Every reachable state -/

namespace System.Sound

variable {first c : Nat} {unread : List α} {s t : System α} {thread : Thread α}

theorem readsAt (h : s.Sound first c unread) : s.ReadsAt (s.front first) := by
  rcases h.at_front.read with ⟨next, -⟩ | ⟨pinned, one⟩
  · exact .inl next
  · -- Some thread counts as the one that has the front pinned.
    obtain ⟨σ, member, counts⟩ := exists_of_tally_pos (by omega : 0 < tally pins s.stages)
    obtain ⟨thread, inside, rfl⟩ := List.mem_map.mp member
    refine .inr ⟨pinned, thread, inside, ?_⟩
    generalize stage : thread.point.stage = σ at member counts
    cases σ with
    | pinning position => rw [h.at_front.pinned position member]
    | _ => cases counts

theorem readsAt_unique (h : s.Sound first c unread) {position : Nat} (reads : s.ReadsAt position) :
    position = s.front first := by
  rcases reads with next | ⟨-, thread, member, stage⟩
  · exact (h.at_front.eq_of_next next).1
  · exact h.at_front.pinned position (List.mem_map.mpr ⟨thread, member, stage⟩)

theorem stage_mem (s : System α) (member : thread ∈ s.threads) : thread.point.stage ∈ s.stages :=
  List.mem_map_of_mem member

theorem written_vacant (h : s.Sound first c unread) (member : thread ∈ s.threads) {position : Nat}
    {push : Push α} {kept : Option α} (point : thread.point = .fillSlot position push kept) :
    s.ring.entry position = none := by
  have staged := stage_mem s member
  rw [point] at staged
  have claimed := h.cursors.claimed staged
  have freed_le := h.cursors.freed_le
  have front_le := h.cursors.front_le
  have fits := h.cursors.fits
  apply h.occupancy.entry_vacant (by omega) (by omega) staged
  simp only [Point.stage, vacates, single_self, Nat.zero_lt_one]

theorem taken_occupied (h : s.Sound first c unread) (member : thread ∈ s.threads) {position : Nat}
    {errand : Errand α} (point : thread.point = .emptySlot position errand) :
    ∃ a, s.ring.entry position = some a := by
  obtain ⟨i, found⟩ := List.mem_iff_getElem?.mp member
  have here := s.stages_getElem? found
  rw [point] at here
  have extracting := h.cursors.extracting (List.mem_of_getElem? here)
  have front_le := h.cursors.front_le
  have visible_le := h.cursors.visible_le
  exact h.occupancy.entry_occupied h.cursors extracting.1 (by omega)
    (h.cursors.filled_of_extracting here)

theorem slot_free (h : s.Sound first c unread) (member : thread ∈ s.threads) {position : Nat}
    {push : Push α} {kept : Option α} (point : thread.point = .awaitSlot position push kept) :
    s.ring.slotIsFree position = true := by
  have staged := stage_mem s member
  rw [point] at staged
  have claimed := h.cursors.claimed staged
  have fits := h.cursors.fits
  simp only [Ring.slotIsFree, Bool.or_eq_true, decide_eq_true_eq]
  omega

theorem slot_step (h : s.Sound first c unread) (step : Step s t) : s.SlotStep t := by
  obtain ⟨i, thread, ring, thread', acts, found, turn, rfl⟩ := step.turn
  have member := List.mem_of_getElem? found
  rcases turn.slots with same | ⟨position, push, kept, point, slots⟩ |
    ⟨position, errand, a, point, entry, slots⟩
  · exact .inl same
  · exact .inr ⟨thread, member,
      .inl ⟨position, push, kept, point, h.written_vacant member point, slots⟩⟩
  · exact .inr ⟨thread, member, .inr ⟨position, errand, a, point, entry, slots⟩⟩

/-- What a visitor of the front reads lies between the front and `visible`. -/
theorem reading_bounds (h : s.Sound first c unread) {position : Nat}
    (reading : s.Reading position) :
    s.front first ≤ position ∧ position < s.ring.visible := by
  obtain ⟨thread, member, pinned, next, stop, clones, visit, point, above, below⟩ := reading
  have known := h.knows thread member
  have staged := stage_mem s member
  rw [point] at known staged
  have at_front := h.at_front.pinned pinned staged
  change stop ≤ s.ring.visible at known
  omega

theorem reading_occupied (h : s.Sound first c unread) {position : Nat}
    (reading : s.Reading position) : ∃ a, s.ring.entry position = some a := by
  have bounds := h.reading_bounds reading
  have freed_le := h.cursors.freed_le
  have visible_le := h.cursors.visible_le
  exact h.occupancy.entry_occupied h.cursors (by omega) (by omega)
    (h.cursors.filled_of_unread bounds.1 bounds.2)

theorem reading_undisturbed (h : s.Sound first c unread) {position : Nat}
    (reading : s.Reading position) (step : Step s t) :
    t.ring.entry position = s.ring.entry position := by
  have bounds := h.reading_bounds reading
  have freed_le := h.cursors.freed_le
  have front_le := h.cursors.front_le
  have visible_le := h.cursors.visible_le
  have fits := h.cursors.fits
  obtain ⟨i, thread, ring, thread', acts, found, turn, rfl⟩ := step.turn
  have member := List.mem_of_getElem? found
  have staged := stage_mem s member
  have capacity := (turn.shift (h.knows thread member)).capacity
  -- A write to another position of the round does not reach the slot.
  have elsewhere : ∀ p content, s.ring.freed ≤ p → p < s.ring.write → p ≠ position →
      ring.slots = s.ring.setSlot p content → ring.entry position = s.ring.entry position := by
    intro p content above below other slots
    have written : ring.entry position =
        { s.ring with slots := s.ring.setSlot p content }.entry position := by
      simp only [Ring.entry, Ring.slotOf, capacity, slots]
    rw [written, Ring.entry_setSlot_window s.ring.freed (by omega) (by omega) above (by omega),
      if_neg (Ne.symm other)]
  change ring.entry position = s.ring.entry position
  rcases turn.slots with same | ⟨p, push, kept, point, slots⟩ | ⟨p, errand, a, point, -, slots⟩
  · simp only [Ring.entry, Ring.slotOf, capacity, same]
  · -- A position that is being filled is not yet published.
    rw [point] at staged
    have claimed := h.cursors.claimed staged
    exact elsewhere p _ (by omega) claimed.2 (by omega) slots
  · -- A position that is being emptied lies before the front.
    rw [point] at staged
    have extracting := h.cursors.extracting staged
    exact elsewhere p _ extracting.1 (by omega) (by omega) slots

theorem slotsOwned (h : s.Sound first c unread) : s.SlotsOwned where
  ordered := by
    -- The place of `read` is the front, pinned or not.
    have fits := h.cursors.fits
    refine ⟨s.front first, h.readsAt, fun _ => h.readsAt_unique, h.cursors.freed_le,
      h.cursors.front_le, h.cursors.visible_le, ?_⟩
    omega
  size_eq := h.cursors.size_eq
  admitted_le := h.cursors.fits
  written_vacant _ member _ _ _ := h.written_vacant member
  taken_occupied _ member _ _ := h.taken_occupied member
  sole_extractor := by
    rintro i j position ⟨thread, taken, found, stage⟩ ⟨other, taken', found', stage'⟩
    have here := s.stages_getElem? found
    have there := s.stages_getElem? found'
    rw [stage] at here
    rw [stage'] at there
    exact h.cursors.sole_extractor here there
  extracted_once := by
    rw [h.extractions]
    exact List.nodup_range'
  slot_step _ := h.slot_step
  reading_occupied _ := h.reading_occupied
  reading_undisturbed _ reading _ := h.reading_undisturbed reading
  slot_free _ member _ _ _ := h.slot_free member

end System.Sound

/-- From a ring at rest no interleaving of any calls leads to a slot that is written while occupied,
taken while vacant, or touched while it is being read; and the cursors, `size` and the threads agree
with each other. -/
theorem reachable_slots_owned {r : Ring α} {c : Nat} {unread : List α} (h : r.Holds c unread 0)
    (calls : List (List (Request α))) {s : System α}
    (reachable : Reachable (System.start r calls) s) : s.SlotsOwned :=
  (reachable.sound h).slotsOwned

/-- A push into a ring of one slot is about to evict the entry before it. -/
theorem slots_owned_at_eviction :
    (Ring.empty 1 : Ring Nat).Holds 1 [] 0 ∧
    ∃ s, Reachable (System.start (Ring.empty 1)
        [[.pushWaiting 7, .pushForced 8], [.pop], [.peek]]) s ∧
      s.stages = [.extracting 0 none, .free, .free] ∧ s.SlotsOwned :=
  have reached := reachable_run .start [0, 0, 0, 0, 0, 0, 0, 0, 0, 0, 0, 0, 0, 0]
  ⟨Ring.holds_empty 1, _, reached, rfl, reachable_slots_owned (Ring.holds_empty 1) _ reached⟩

end RingQueue.Protocol
