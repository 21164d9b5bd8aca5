import RingQueue.PolicyQueue
import RingQueue.Proofs.Ring.Calls
import RingQueue.Ring.Timed

/-!
How requests for room, pushes and calls with a timeout end on a ring at rest.

There is room, the request is denied, the oldest unread entry makes way, or the call waits. The
policy decides between the last three, which need a full ring. A call with a timeout gives up
instead of waiting for ever.
-/
namespace RingQueue

variable {α β : Type}

@[simp] theorem Call.after_returned (log : List (Effect α)) (value : β) (r : Ring α)
    (effects : List (Effect α)) :
    (Call.returned value r effects).after log = .returned value r (log ++ effects) := rfl

/-- What is logged while a request for room waits in a full ring: one that blocks says so. -/
def OverflowPolicy.waitingLog (policy : OverflowPolicy) (capacity : Nat) : List (Effect α) :=
  match policy with
  | .block => [.reported (.spinning capacity)]
  | _ => []

/-- Entries that do not break off while they are dropped are all dropped. -/
theorem EntryKind.dropAll_eq {k : EntryKind α} (sound : k.dropFails = none) (entries : Batch α) :
    k.dropAll entries = ⟨entries, none⟩ := by
  simp only [dropAll, sound]

namespace Ring

theorem returnAfterDrop_eq {k : EntryKind α} (sound : k.dropFails = none) (a : Option α) (value : β)
    (r : Ring α) : returnAfterDrop k a value r = .returned value r (Effect.drop? a) := by
  cases a with
  | none => rfl
  | some a => simp [returnAfterDrop, EntryKind.dropFault, k.dropAll_eq sound, Call.returned]

theorem report_denied (k : EntryKind α) (turnedDown : Option α) (r : Ring α) :
    report k turnedDown .denied r = r.returnAfterDrop k turnedDown (.error .queueIsFull) := rfl

theorem report_stored (k : EntryKind α) (turnedDown evicted : Option α) (r : Ring α) :
    report k turnedDown (.stored evicted) r = r.returnAfterDrop k evicted (.ok ()) := rfl

/-- Entries that can be dropped are all dropped alike. -/
theorem report_eq_plain {k : EntryKind α} (sound : k.dropFails = none) :
    (report k : Option α → Pushed α → Ring α → _) = report .plain := by
  have plain : (EntryKind.plain : EntryKind α).dropFails = none := rfl
  funext turnedDown pushed r
  cases pushed with
  | denied => rw [report_denied, report_denied, returnAfterDrop_eq sound, returnAfterDrop_eq plain]
  | stored evicted =>
    rw [report_stored, report_stored, returnAfterDrop_eq sound, returnAfterDrop_eq plain]

theorem pushUnder_eq_plain {k : EntryKind α} (sound : k.dropFails = none)
    (policy : OverflowPolicy) (a : α) (r : Ring α) :
    r.pushUnder k policy a = r.pushUnder .plain policy a := by
  rw [pushUnder, pushUnder, report_eq_plain sound]

/-- How a request for room can end. -/
inductive Requested (r : Ring α) (c : Nat) (entries : List α) (reserved : Nat)
    (policy : OverflowPolicy) : Call α (Room α) → Prop where
  | room {r' : Ring α} (room : entries.length + reserved < c)
      (holds : r'.Holds c entries (reserved + 1)) :
      Requested r c entries reserved policy (.returned (.granted none) r' [])
  | denied (kind : policy = .reject) (full : entries.length + reserved = c) :
      Requested r c entries reserved policy (.returned .denied r [])
  | evicting {oldest : α} {rest : List α} {r' : Ring α} (kind : policy = .overwrite)
      (contents : entries = oldest :: rest) (full : entries.length + reserved = c)
      (holds : r'.Holds c rest (reserved + 1)) :
      Requested r c entries reserved policy
        (.returned (.granted (some oldest)) r' [.reported (.evicted c)])
  -- All that a forced request can wait for is room that belongs to entries still being made.
  | waiting (kind : policy = .block ∨ policy = .overwrite ∧ entries = [])
      (full : entries.length + reserved = c) :
      Requested r c entries reserved policy ⟨.waiting, r, policy.waitingLog c⟩

/-- How a push can end. -/
inductive Pushing (r : Ring α) (c : Nat) (entries : List α) (reserved : Nat)
    (policy : OverflowPolicy) (a : α) : Call α (Pushed α) → Prop where
  | stored {r' : Ring α} (room : entries.length + reserved < c)
      (holds : r'.Holds c (entries ++ [a]) reserved) :
      Pushing r c entries reserved policy a (.returned (.stored none) r' [])
  | denied (kind : policy = .reject) (full : entries.length + reserved = c) :
      Pushing r c entries reserved policy a (.returned .denied r [])
  | replaced {oldest : α} {rest : List α} {r' : Ring α} (kind : policy = .overwrite)
      (contents : entries = oldest :: rest) (full : entries.length + reserved = c)
      (holds : r'.Holds c (rest ++ [a]) reserved) :
      Pushing r c entries reserved policy a
        (.returned (.stored (some oldest)) r' [.reported (.evicted c)])
  | waiting (kind : policy = .block ∨ policy = .overwrite ∧ entries = [])
      (full : entries.length + reserved = c) :
      Pushing r c entries reserved policy a ⟨.waiting, r, policy.waitingLog c⟩

namespace Holds

variable {r : Ring α} {c reserved : Nat} {entries : List α}

theorem requested (h : r.Holds c entries reserved) (policy : OverflowPolicy) :
    Requested r c entries reserved policy (r.request policy) := by
  rcases Nat.lt_or_ge (entries.length + reserved) c with room | full
  · obtain ⟨r', request, holds⟩ := h.request_room room policy
    rw [request]
    exact .room room holds
  · have full : entries.length + reserved = c := Nat.le_antisymm h.fits full
    cases policy with
    | reject =>
      rw [h.request_reject_full full]
      exact .denied rfl full
    | block =>
      rw [h.request_block_full full]
      exact .waiting (.inl rfl) full
    | overwrite =>
      cases entries with
      | nil =>
        simp only [List.length_nil, Nat.zero_add] at full
        subst full
        rw [h.request_overwrite_unpublished]
        exact .waiting (.inr ⟨rfl, rfl⟩) (Nat.zero_add _)
      | cons oldest rest =>
        obtain ⟨r', request, holds⟩ := h.request_overwrite_full full
        rw [request]
        exact .evicting rfl rfl full holds

/-- A request that is granted leaves one admission more. -/
theorem request_granted (h : r.Holds c entries reserved) (policy : OverflowPolicy)
    {evicted : Option α} (granted : (r.request policy).outcome = .returned (.granted evicted)) :
    ∃ left, (r.request policy).ring.Holds c left (reserved + 1) := by
  have requested := h.requested policy
  generalize r.request policy = made at requested granted
  cases requested with
  | room room holds => exact ⟨entries, holds⟩
  | evicting kind contents full holds => exact ⟨_, holds⟩
  | denied => cases granted
  | waiting => cases granted

theorem pushing (h : r.Holds c entries reserved) (policy : OverflowPolicy) (a : α) :
    Pushing r c entries reserved policy a (r.push policy a) := by
  have requested := h.requested policy
  rw [push, emplace]
  generalize r.request policy = made at requested
  cases requested with
  | room room holds =>
    obtain ⟨r', settled, stored⟩ := holds.settle_made none a
    simp only [Call.andThen_returned, settled, Call.after_nil]
    exact .stored room stored
  | denied kind full => exact .denied kind full
  | @evicting oldest _ _ kind contents full holds =>
    obtain ⟨r', settled, stored⟩ := holds.settle_made (some oldest) a
    simp only [Call.andThen_returned, settled]
    exact .replaced kind contents full stored
  | waiting kind full => exact .waiting kind full

end Holds

/-! ## Timeouts -/

/-- How a push with a timeout can end while nothing else happens. -/
inductive PushedWithin (r : Ring α) (c : Nat) (entries : List α) (reserved : Nat) (a : α) :
    Call α (Except α Unit) → Prop where
  -- There is no such deadline.
  | late (fault : Fault) : PushedWithin r c entries reserved a
      ⟨.aborted fault, r, [.dropped (.single a)]⟩
  | stored {r' : Ring α} (holds : r'.Holds c (entries ++ [a]) reserved) :
      PushedWithin r c entries reserved a (.returned (.ok ()) r' [])
  | timedOut (full : entries.length + reserved = c) :
      PushedWithin r c entries reserved a (.returned (.error a) r [.reported (.pushTimedOut c)])
  | waiting (full : entries.length + reserved = c) : PushedWithin r c entries reserved
      a (.waiting r)

/-- How a pop with a timeout can end while nothing else happens. -/
inductive PoppedWithin (r : Ring α) (c : Nat) (entries : List α) (reserved : Nat) :
    Call α (Option α) → Prop where
  | late (fault : Fault) : PoppedWithin r c entries reserved ⟨.aborted fault, r, []⟩
  | popped {a : α} {rest : List α} {r' : Ring α} (contents : entries = a :: rest)
      (holds : r'.Holds c rest reserved) : PoppedWithin r c entries reserved
        (.returned (some a) r' [])
  | timedOut (empty : entries = []) :
      PoppedWithin r c entries reserved (.returned none r [.reported (.popTimedOut c)])
  | waiting (empty : entries = []) : PoppedWithin r c entries reserved (.waiting r)

namespace Holds

variable {r : Ring α} {c reserved : Nat} {entries : List α} (clock : Clock) (timeout : Timeout)

theorem pushedWithin (h : r.Holds c entries reserved) (a : α) :
    PushedWithin r c entries reserved a (r.pushBackWithin clock timeout a) := by
  unfold pushBackWithin
  cases timeout.deadline clock 0 with
  | error fault => exact .late fault
  | ok until? =>
    dsimp only
    unfold pushBackUntil
    rcases Nat.lt_or_ge (entries.length + reserved) c with room | full
    · obtain ⟨admitted, granted, admittedHolds⟩ := h.tryAdmission_room room
      obtain ⟨r', published, holds⟩ := admittedHolds.publish a
      simp only [granted, published]
      exact .stored holds
    · have full : entries.length + reserved = c := Nat.le_antisymm h.fits full
      simp only [h.tryAdmission_full full]
      cases until? with
      | none => exact .waiting full
      | some time =>
        have past : Deadline.isPast (some time) (time + 1) = true := by simp [Deadline.isPast]
        simp only [undisturbed, past, if_true, h.capacity]
        exact .timedOut full

theorem poppedWithin (h : r.Holds c entries reserved) :
    PoppedWithin r c entries reserved (r.popFrontWithin clock timeout) := by
  unfold popFrontWithin
  cases timeout.deadline clock 0 with
  | error fault => exact .late fault
  | ok until? =>
    dsimp only
    unfold popFrontUntil
    cases entries with
    | nil =>
      simp only [h.takeFront_nil]
      cases until? with
      | none => exact .waiting rfl
      | some time =>
        have past : Deadline.isPast (some time) (time + 1) = true := by simp [Deadline.isPast]
        simp only [undisturbed, past, if_true, h.capacity]
        exact .timedOut rfl
    | cons a rest =>
      obtain ⟨r', taken, holds⟩ := h.takeFront_cons
      simp only [taken]
      exact .popped rfl holds

end Holds

end Ring

end RingQueue
