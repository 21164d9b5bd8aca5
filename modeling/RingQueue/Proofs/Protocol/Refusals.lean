import Mathlib.Tactic.Common
import RingQueue.Proofs.Protocol.Accounts
import RingQueue.Proofs.Protocol.Ownership

/-!
What a push, or a look at the length, finds out about the room in a ring.

An attempt raises `size` before it knows whether there is room, and is undone when there is none.
Until then it counts for the others like an entry. So an attempt is refused when the entries that
have room and the attempts that fail take up all slots together, although there may be room
(`full_or_failing`). Without failing attempts a push is turned down, and evicts, only when all slots
are taken.
-/
namespace RingQueue.Protocol

variable {α : Type} {c : Nat} {r ring : Ring α} {unread : List α} {calls : List (List (Request α))}
  {first s t u : System α} {i : Nat}

namespace System

/-- The admissions that are neither released nor given back. -/
def occupied (s : System α) : Nat := s.unreleased + s.unclaimed

/-- Thread `i` is about to make an attempt for the push. -/
def Attempts (s : System α) (i : Nat) (push : Push α) : Prop :=
  ∃ thread kept, s.threads[i]? = some thread ∧ thread.point = .raiseSize push kept

/-- From the first state to the second thread `i` takes up no other call. -/
def InCall (t : System α) (i : Nat) (s : System α) : Prop :=
  Reachable t s ∧
    ∃ since, s.history = since ++ t.history ∧ ∀ act ∈ since, act.1 = i → act.2.isCall = false

theorem InCall.refl (s : System α) (i : Nat) : s.InCall i s := ⟨.start, [], rfl, nofun⟩

theorem InCall.next (inCall : t.InCall i s) (step : Step s u) {new : List (Nat × Act α)}
    (history : u.history = new ++ s.history)
    (inside : ∀ act ∈ new, act.1 = i → act.2.isCall = false) :
    t.InCall i u := by
  obtain ⟨reached, since, same, before⟩ := inCall
  refine ⟨reached.next step, new ++ since, by rw [history, same, List.append_assoc], ?_⟩
  intro act member mine
  rcases List.mem_append.mp member with now | earlier
  · exact inside act now mine
  · exact before act earlier mine

/-- A thread is refused when it attempts while no slot is left, for entries or attempts. -/
def Refuses (t : System α) (i : Nat) (push : Push α) : Prop :=
  t.Attempts i push ∧ t.ring.capacity ≤ t.ring.size

end System

/-! ## From the attempt to its consequences -/

/-- The push whose last attempt was refused and that has not made another one. -/
def Point.refused? : Point α → Option (Push α)
  | .undoRaise push _ => some push
  | .findFront (.evict push _) => some push
  | .checkFront _ (.evict push _) => some push
  | .takeFront _ (.evict push _) => some push
  | _ => none

theorem Request.refused?_start (request : Request α) : request.start.refused? = none := by
  cases request <;> rfl

theorem Point.Leads.refused {point point' : Point α} {acts : List (Act α)}
    (leads : point.Leads r ring acts point') {push : Push α}
    (refused : point'.refused? = some push) :
    (∃ kept, point = .raiseSize push kept ∧ r.capacity ≤ r.size) ∨ point.refused? = some push := by
  cases leads with
  | noRoom p kept full =>
    cases refused
    exact .inl ⟨kept, rfl, full⟩
  | wait => exact .inr refused
  | evict p kept => exact .inr refused
  | front position errand => cases errand <;> exact .inr refused
  | unread position errand => cases errand <;> exact .inr refused
  | missTake position errand => cases errand <;> exact .inr refused
  | _ => cases refused

/-- An attempt is refused just when no slot is left for it. -/
theorem advance_refused (r : Ring α) (push : Push α) (kept : Option α) :
    (advance r (.raiseSize push kept)).point = .undoRaise push kept ↔ r.capacity ≤ r.size := by
  rw [advance]
  split
  · refine ⟨fun refused => ?_, fun full => absurd full (Nat.not_le_of_lt ‹_›)⟩
    cases refused
  · exact ⟨fun _ => Nat.le_of_not_lt ‹_›, fun _ => rfl⟩

/-- A push that was refused attempted within the same call. -/
theorem Reachable.refusal (reachable : Reachable (System.start r calls) s) :
    ∀ i thread push, s.threads[i]? = some thread → thread.point.refused? = some push →
      ∃ t, Reachable (System.start r calls) t ∧ t.InCall i s ∧ t.Refuses i push := by
  induction reachable with
  | start =>
    intro i thread push found refused
    simp only [System.start, List.getElem?_map, Option.map_eq_some_iff] at found
    obtain ⟨requests, -, rfl⟩ := found
    cases refused
  | @next s u before step ih =>
    intro i thread push found refused
    obtain ⟨j, old, ring, new, acts, was, turn, result⟩ := step.turn
    -- The acts of the turn are those of thread `j`.
    have history : u.history = (acts.map fun act => (j, act)).reverse ++ s.history := by
      rw [result]
      rfl
    have mine (act : Nat × Act α) (member : act ∈ (acts.map fun act => (j, act)).reverse) :
        act.1 = j ∧ act.2 ∈ acts := by
      obtain ⟨made, inside, rfl⟩ := List.mem_map.mp (List.mem_reverse.mp member)
      exact ⟨rfl, inside⟩
    rw [result] at found
    by_cases same : j = i
    · subst same
      rw [System.threads_after_same was] at found
      cases found
      rcases turn.leads with ⟨request, -, -, start, -, -⟩ | ⟨-, -, leads⟩
      · rw [start, request.refused?_start] at refused
        cases refused
      · have inside (act : Nat × Act α) (member : act ∈ (acts.map fun act => (j, act)).reverse)
            (_ : act.1 = j) : act.2.isCall = false := leads.not_call _ (mine act member).2
        rcases leads.refused refused with ⟨kept, point, full⟩ | earlier
        · have inCall := (System.InCall.refl s j).next step history inside
          exact ⟨s, before, inCall, ⟨old, kept, was, point⟩, full⟩
        · obtain ⟨t, reached, inCall, refuses⟩ := ih j old push was earlier
          exact ⟨t, reached, inCall.next step history inside, refuses⟩
    · rw [System.threads_after_other same] at found
      obtain ⟨t, reached, inCall, refuses⟩ := ih i thread push found refused
      refine ⟨t, reached, inCall.next step history fun act member me => ?_, refuses⟩
      exact absurd ((mine act member).1.symm.trans me) same

/-! ## Answers and evictions -/

theorem Point.Leads.turned_down {point point' : Point α} {acts : List (Act α)}
    (leads : point.Leads r ring acts point') {value : α}
    (answered : .answered (.turnedDown value) ∈ acts) :
    ∃ push, point.refused? = some push ∧ push.policy = .reject ∧ push.value = value := by
  cases leads with
  | turnDown push kept rejects =>
    simp only [List.mem_singleton, Act.answered.injEq, Response.turnedDown.injEq] at answered
    exact ⟨push, rfl, rejects, answered.symm⟩
  | giveUp push kept => cases kept <;> simp [dropActs] at answered
  | unpin position clones visit => cases visit <;> simp [Visit.response] at answered
  | _ => simp at answered

theorem Point.Leads.extracted {point point' : Point α} {acts : List (Act α)}
    (leads : point.Leads r ring acts point') {position : Nat} (made : .extracted position ∈ acts) :
    ∃ errand, point = .takeFront position errand := by
  cases leads with
  | extract other errand =>
    simp only [List.mem_singleton, Act.extracted.injEq] at made
    exact ⟨errand, made ▸ rfl⟩
  | giveUp push kept => cases kept <;> simp [dropActs] at made
  | unpin position clones visit => simp at made
  | _ => simp at made

theorem Point.Leads.length {point point' : Point α} {acts : List (Act α)}
    (leads : point.Leads r ring acts point') {n : Nat} (answered : .answered (.length n) ∈ acts) :
    point = .readSize ∧ n = r.len := by
  cases leads with
  | size =>
    simp only [List.mem_singleton, Act.answered.injEq, Response.length.injEq] at answered
    exact ⟨rfl, answered⟩
  | giveUp push kept => cases kept <;> simp [dropActs] at answered
  | unpin position clones visit => cases visit <;> simp [Visit.response] at answered
  | _ => simp at answered

/-- An act other than taking up a call is made inside one. -/
theorem System.Makes.leads {act : Act α} {earlier : List (Nat × Act α)}
    (makes : t.Makes i act earlier) (inside : act.isCall = false) :
    ∃ thread ring point acts, t.threads[i]? = some thread ∧
      thread.point.Leads t.ring ring acts point ∧
      act ∈ acts := by
  obtain ⟨thread, ring, thread', before, after, found, turn, -⟩ := makes
  have member : act ∈ before ++ act :: after := List.mem_append_right before List.mem_cons_self
  rcases turn.leads with ⟨_, -, -, -, -, called⟩ | ⟨-, -, leads⟩
  · rw [called] at member
    cases List.mem_singleton.mp member
    cases inside
  · exact ⟨thread, ring, _, _, found, leads, member⟩

/-! ## The result -/

/-- What calls find out about the room in the ring. -/
structure System.FullOrFailing (s first : System α) (c : Nat) : Prop where
  counted : s.ring.size = s.occupied + s.failing
  bounded : s.occupied ≤ c
  -- An attempt is refused just when entries and failing attempts take up all slots.
  attempt : ∀ push kept, (advance s.ring (.raiseSize push kept)).point = .undoRaise push kept ↔
    c ≤ s.occupied + s.failing
  -- A push that is turned down attempted at such an instant of its call. Without a failing attempt
  -- of another thread all slots were taken then.
  turned_down : ∀ i value later earlier,
    s.history = later ++ (i, .answered (.turnedDown value)) :: earlier →
    ∃ t u push, Reachable first t ∧ t.InCall i u ∧ Reachable u s ∧
      u.Makes i (.answered (.turnedDown value)) earlier ∧ push.policy = .reject ∧
        push.value = value ∧
      t.Attempts i push ∧ c ≤ t.occupied + t.failing ∧ (t.failing = 0 → t.occupied = c)
  -- So did a push that evicts.
  evicted : ∀ i position later earlier, s.history = later ++ (i, .extracted position) :: earlier →
    ∃ u thread errand, Reachable first u ∧ Reachable u s ∧ u.Makes i (.extracted position) earlier ∧
      u.threads[i]? = some thread ∧ thread.point = .takeFront position errand ∧
      ∀ push kept, errand = .evict push kept → ∃ t, Reachable first t ∧ t.InCall i u ∧
        t.Attempts i push ∧ c ≤ t.occupied + t.failing ∧ (t.failing = 0 → t.occupied = c)
  -- The length counts failing attempts up to the capacity.
  length : ∀ i n later earlier, s.history = later ++ (i, .answered (.length n)) :: earlier →
    ∃ u, Reachable first u ∧ Reachable u s ∧ u.Makes i (.answered (.length n)) earlier ∧
      n = min c (u.occupied + u.failing) ∧ (n ≤ u.occupied ↔ u.failing = 0 ∨ u.occupied = c)

section Result

variable (h : r.Holds c unread 0) (reachable : Reachable (System.start r calls) s)

include h reachable

theorem Reachable.occupied :
    s.ring.size = s.occupied + s.failing ∧ s.occupied ≤ c ∧ s.ring.capacity = c := by
  have sound := reachable.sound h
  have owned := sound.slotsOwned
  exact ⟨owned.size_eq, sound.capacity_eq ▸ owned.admitted_le, sound.capacity_eq⟩

/-- An instant at which a thread was refused. -/
theorem Reachable.refuses {push : Push α} (refuses : s.Refuses i push) :
    s.Attempts i push ∧ c ≤ s.occupied + s.failing ∧ (s.failing = 0 → s.occupied = c) := by
  obtain ⟨counted, bounded, capacity⟩ := reachable.occupied h
  obtain ⟨attempts, full⟩ := refuses
  refine ⟨attempts, by omega, ?_⟩
  omega

end Result

/-- Whatever the threads do, a push is turned down, or evicts, only after an attempt of the same
call that found all slots taken up by entries and failing attempts; and the length counts both. -/
theorem full_or_failing (h : r.Holds c unread 0) (calls : List (List (Request α)))
    (reachable : Reachable (System.start r calls) s) :
    s.FullOrFailing (System.start r calls) c := by
  obtain ⟨counted, bounded, capacity⟩ := reachable.occupied h
  refine ⟨counted, bounded, ?_, ?_, ?_, ?_⟩
  · intro push kept
    rw [← counted, ← capacity]
    exact advance_refused s.ring push kept
  · intro i value later earlier split
    obtain ⟨u, reached, there, makes⟩ := reachable.moment rfl split
    obtain ⟨thread, ring, point, acts, found, leads, answered⟩ := makes.leads rfl
    obtain ⟨push, refused, rejects, same⟩ := leads.turned_down answered
    obtain ⟨t, before, inCall, refuses⟩ := reached.refusal i thread push found refused
    exact ⟨t, u, push, before, inCall, there, makes, rejects, same, before.refuses h refuses⟩
  · intro i position later earlier split
    obtain ⟨u, reached, there, makes⟩ := reachable.moment rfl split
    obtain ⟨thread, ring, point, acts, found, leads, made⟩ := makes.leads rfl
    obtain ⟨errand, front⟩ := leads.extracted made
    refine ⟨u, thread, errand, reached, there, makes, found, front, ?_⟩
    rintro push kept rfl
    obtain ⟨t, before, inCall, refuses⟩ := reached.refusal i thread push found (by rw [front]; rfl)
    exact ⟨t, before, inCall, before.refuses h refuses⟩
  · intro i n later earlier split
    obtain ⟨u, reached, there, makes⟩ := reachable.moment rfl split
    obtain ⟨thread, ring, point, acts, found, leads, answered⟩ := makes.leads rfl
    obtain ⟨-, rfl⟩ := leads.length answered
    obtain ⟨counted, bounded, capacity⟩ := reached.occupied h
    refine ⟨u, reached, there, makes, ?_, ?_⟩
    · rw [Ring.len, counted, capacity, Nat.min_comm]
    · rw [Ring.len, counted, capacity]
      omega

/-- The states on a schedule, from the first to the last. -/
def System.along (s : System α) : List Nat → List (System α)
  | [] => [s]
  | i :: rest => s :: (s.runThread i).along rest

/-- Four threads that begin while thread `0` is about to undo an attempt that failed, and thread `1`
has popped one of two entries since. -/
def besideFailing : System Nat :=
  (System.start (.empty 2)
    [[.pushWaiting 0, .pushWaiting 1, .push ⟨.reject, 2, false, false⟩], [.pop],
      [.push ⟨.reject, 3, false, false⟩], [.len], [.pushForced 4]]).run
    (List.replicate 18 0 ++ List.replicate 8 1)

/-- With one slot of two taken all through their calls, a push is turned down, the length is two,
and a forced push evicts the only entry. -/
theorem full_with_room_beside_failing :
    ((∀ s ∈ besideFailing.along [2, 2, 2], s.occupied = 1) ∧
      (besideFailing.run [2, 2, 2]).responsesOf 2 = [.turnedDown 3]) ∧
    ((∀ s ∈ besideFailing.along [3, 3], s.occupied = 1) ∧
      (besideFailing.run [3, 3]).responsesOf 3 = [.length 2]) ∧
    ((∀ s ∈ besideFailing.along (List.replicate 17 4), s.occupied < 2) ∧
      (besideFailing.run (List.replicate 17 4)).responsesOf 4 = [.stored (some 1)]) := by
  refine ⟨⟨by decide +kernel, rfl⟩, ⟨by decide +kernel, rfl⟩, ⟨by decide +kernel, rfl⟩⟩

/-- A push into a full ring that nobody else uses is turned down at an instant without failing
attempts. -/
theorem full_without_failing :
    (Ring.empty 1 : Ring Nat).Holds 1 [] 0 ∧
    ∃ s, Reachable (System.start (Ring.empty 1)
      [[.pushWaiting 7, .push ⟨.reject, 8, false, false⟩]]) s ∧
      s.responsesOf 0 = [.stored none, .turnedDown 8] ∧
      s.FullOrFailing (System.start (Ring.empty 1)
        [[.pushWaiting 7, .push ⟨.reject, 8, false, false⟩]]) 1 :=
  have reached := reachable_run .start (List.replicate 11 0)
  ⟨Ring.holds_empty 1, _, reached, rfl, full_or_failing (Ring.holds_empty 1) _ reached⟩

end RingQueue.Protocol
