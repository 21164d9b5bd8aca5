import RingQueue.Proofs.Ring.Timed
import RingQueue.Proofs.Session.Fronts

/-!
Calls that wait with a deadline, whatever happens between their attempts.

The rings that other handles leave between two attempts are those that occur in sessions, with
admissions that are out, and among threads at any points of their calls. Over all of them a timed
push keeps its entry or pushes it once, and a timed pop takes the oldest entry or none
(`timed_waits`).
-/
namespace RingQueue

variable {α : Type}

/-! ## Rings that attempts meet -/

/-- The unread entries of threads stand in their slots, wherever the threads are in their calls. -/
theorem Protocol.System.Sound.hasUnread {s : Protocol.System α} {first c : Nat} {unread : List α}
    (h : s.Sound first c unread) : s.ring.HasUnread := by
  have freed_le := h.cursors.freed_le
  have front_le := h.cursors.front_le
  have visible_le := h.cursors.visible_le
  have fits := h.cursors.fits
  rcases h.at_front.read with ⟨next, -⟩ | ⟨pinned, -⟩
  · have front : s.ring.front = s.front first := by simp only [Ring.front, next]
    refine ⟨by omega, by omega, fun position above below => ?_⟩
    rw [front] at above
    exact h.occupancy.entry_occupied h.cursors (by omega) (by omega)
      (h.cursors.filled_of_unread above below)
  · -- Behind a pin nothing counts as unread.
    have front : s.ring.front = s.ring.visible := by simp only [Ring.front, pinned]
    refine ⟨by omega, by omega, fun position above below => ?_⟩
    omega

namespace Ring

/-- The rings that there can be at any instant. -/
inductive Occurs : Ring α → Prop where
  | found {r : Ring α} (found : r.IsFound) : Occurs r
  -- Threads may stand at any points of their calls.
  | shared {r : Ring α} {c : Nat} {unread : List α} {calls : List (List (Protocol.Request α))}
      {s : Protocol.System α} (rest : r.Holds c unread 0)
      (reachable : Protocol.Reachable (.start r calls) s) :
      Occurs s.ring

theorem Occurs.hasUnread {r : Ring α} (occurs : r.Occurs) : r.HasUnread := by
  cases occurs with
  | found found => exact found.serves.hasUnread
  | shared rest reachable => exact (reachable.sound rest).hasUnread

/-! ## Calls -/

section Calls

variable {clock : Clock} {timeout : Timeout} {deadline : Deadline} {interludes : List (Interlude α)}
  {r : Ring α} {a : α}

/-- A push with a timeout, and what becomes of it. -/
structure TimedPush (timeout : Timeout) (a : α) (interludes : List (Interlude α)) (r : Ring α)
    (call : Call α (Except α Unit)) (deadline : Deadline) : Prop where
  ends : PushEnds deadline a interludes r call
  -- An attempt that can succeed at once is made, even if the clock is past the deadline from the
  -- start.
  tries : ∀ c entries reserved, r.Holds c entries reserved → r.isFull = false →
    ∃ left, call = .returned (.ok ()) left [] ∧ left.Holds c (entries ++ [a]) reserved
  endless : timeout = none → (∀ value, call.outcome ≠ .returned (.error value)) ∧ call.effects = []

/-- A pop with a timeout, and what becomes of it. -/
structure TimedPop (timeout : Timeout) (interludes : List (Interlude α)) (r : Ring α)
    (call : Call α (Option α)) (deadline : Deadline) : Prop where
  ends : PopEnds deadline interludes r call
  tries : ∀ a entries, r.Serves (a :: entries) → ∃ left, call = .returned (some a) left [] ∧
    left.Serves entries
  endless : timeout = none → call.outcome ≠ .returned none ∧ call.effects = []

/-- Without a timeout no clock is ever late. -/
theorem deadline_endless {now : Nat} (representable : timeout.deadline clock now = .ok deadline)
    (endless : timeout = none) (time : Nat) : deadline.isPast time = false := by
  subst endless
  cases representable
  rfl

theorem timedPush {now : Nat} (representable : timeout.deadline clock now = .ok deadline) :
    TimedPush timeout a interludes r (pushBackUntil deadline a interludes r) deadline where
  ends := pushBackUntil_ends deadline a interludes r
  tries := by
    intro c entries reserved holds room
    obtain ⟨admitted, granted, more⟩ := holds.tryAdmission_room (holds.room_of_not_full room)
    obtain ⟨left, published, stored⟩ := more.publish a
    refine ⟨left, ?_, stored⟩
    rw [pushBackUntil.eq_def]
    simp only [granted, published]
  endless := by
    intro endless
    have ends := pushBackUntil_ends deadline a interludes r
    generalize pushBackUntil deadline a interludes r = call at ends
    cases ends with
    | timedOut comes full next late =>
      rw [deadline_endless representable endless] at late
      cases late
    | stored | starved | behind => exact ⟨fun value => by rintro ⟨⟩, rfl⟩

theorem timedPop {now : Nat} (representable : timeout.deadline clock now = .ok deadline)
    (occurs : ∀ n ≤ interludes.length, (r.meets interludes n).Occurs) :
    TimedPop timeout interludes r (popFrontUntil deadline interludes r) deadline where
  ends := popFrontUntil_ends deadline interludes r fun n below => (occurs n below).hasUnread
  tries := by
    intro a entries serves
    obtain ⟨left, taken, after⟩ := serves.takeFront_cons
    refine ⟨left, ?_, after⟩
    rw [popFrontUntil.eq_def]
    simp only [taken]
  endless := by
    intro endless
    have ends := popFrontUntil_ends deadline interludes r fun n below => (occurs n below).hasUnread
    generalize popFrontUntil deadline interludes r = call at ends
    cases ends with
    | timedOut comes nothing none_unread next late =>
      rw [deadline_endless representable endless] at late
      cases late
    | popped | starved | held => exact ⟨by rintro ⟨⟩, rfl⟩

end Calls

end Ring

/-! ## Main result -/

/-- Whatever the clock shows and other handles do between the attempts, a push within a timeout
gives its entry back after an attempt that found the ring full, or pushes it once; a pop within a
timeout gives up after an attempt that found nothing, or takes the oldest entry. Without a timeout
neither gives up. -/
theorem timed_waits {clock : Clock} {timeout : Timeout} {now : Nat} {deadline : Deadline}
    (representable : timeout.deadline clock now = .ok deadline) (interludes : List (Interlude α))
    (r : Ring α) (occurs : ∀ n ≤ interludes.length, (r.meets interludes n).Occurs) :
    (∀ a, Ring.TimedPush timeout a interludes r (Ring.pushBackUntil deadline a interludes r)
      deadline) ∧
      Ring.TimedPop timeout interludes r (Ring.popFrontUntil deadline interludes r) deadline :=
  ⟨fun _ => Ring.timedPush representable, Ring.timedPop representable occurs⟩

/-- With no time to wait the clock is not late when it shows the time of the beginning, and the
entry goes to where another handle has made room meanwhile. -/
theorem timed_waits_for_a_last_chance :
    let full : Ring Nat := ((Ring.empty 1).pushBack 7).ring
    let interludes : List (Interlude Nat) := [⟨10, fun r => r.popFront.ring⟩]
    let pushed := Ring.pushBackUntil (some 10) 8 interludes full
    Timeout.deadline .endless (some 0) 10 = .ok (some 10) ∧
      (∀ n ≤ interludes.length, (full.meets interludes n).Occurs) ∧
      full.isFull = true ∧ full.unread = [7] ∧ pushed.outcome.value? = some (.ok ()) ∧
        pushed.ring.unread = [8] ∧
      Ring.TimedPush (some 0) 8 interludes full pushed (some 10) ∧
      Ring.TimedPop (some 0) interludes full (Ring.popFrontUntil (some 10) interludes full)
        (some 10) := by
  intro full interludes pushed
  have representable : Timeout.deadline .endless (some 0) 10 = .ok (some 10) := rfl
  have fresh : Admissions.Reached (Ring.empty 1 : Ring Nat) (.start (.empty 1)) := .start
  have stored := (fresh.next .tryAdmit rfl).next (.publish 0 7) rfl
  have before : full.Occurs := .found (.withAdmissions (Ring.holds_empty 1) stored)
  have taken := stored.next .takeFront rfl
  have between : full.popFront.ring.Occurs := .found (.withAdmissions (Ring.holds_empty 1) taken)
  have occurs : ∀ n ≤ interludes.length, (full.meets interludes n).Occurs := by
    intro n below
    have cases_of : n = 0 ∨ n = 1 := by
      have length : interludes.length = 1 := rfl
      omega
    rcases cases_of with rfl | rfl
    · exact before
    · exact between
  obtain ⟨push, pop⟩ := timed_waits representable interludes full occurs
  exact ⟨representable, occurs, by decide +kernel, by decide +kernel, rfl, by decide +kernel,
    push 8, pop⟩

end RingQueue
