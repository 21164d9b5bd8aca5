import RingQueue.Proofs.Protocol.Occupancy
import RingQueue.Proofs.Ring.Admissions
import RingQueue.Proofs.Session.Frames
import RingQueue.Proofs.Session.Reachable

/-!
Who looks at the front of a queue, and what is left of a look.

In every ring that a call can find, inside sessions and constructors, with admissions that are out,
and among threads whose pushes stand anywhere, the ways to the front agree and a look leaves no
trace (`fronts_agree`). Threads that look at the front put back what they pinned.
-/
namespace RingQueue

variable {α : Type}

/-! ## Threads -/

namespace Protocol

/-- The thread neither has the front pinned nor is on the way out of a slot that it has extracted.
-/
def Stage.IsAside : Stage α → Prop
  | extracting _ _ | pinning _ => False
  | _ => True

/-- Which position `read` has when `first` was the front at the start: that of the front, also after
a pin. -/
structure System.PinsFront (first : Nat) (s : System α) : Prop where
  pinned_iff : s.ring.read = .pinned ↔ ∃ position, .pinning position ∈ s.stages
  -- The thread with the pin puts `read` back to where all extractions so far have moved it.
  restored : ∀ position, .pinning position ∈ s.stages → position = s.front first
  unpinned : s.ring.read ≠ .pinned → s.ring.read = .next (s.front first)

variable {s : System α} {first c : Nat} {unread : List α}

theorem System.Sound.pinsFront (h : s.Sound first c unread) : s.PinsFront first where
  pinned_iff := by
    constructor
    · intro pinned
      -- Someone counts for the pin.
      by_contra nobody
      have none : tally Stage.pins s.stages = 0 := by
        refine tally_eq_zero fun σ member => ?_
        cases σ with
        | pinning position => exact absurd ⟨position, member⟩ nobody
        | _ => rfl
      rcases h.at_front.read with ⟨next, -⟩ | ⟨-, one⟩
      · rw [pinned] at next
        cases next
      · omega
    · rintro ⟨position, pinning⟩
      exact (h.at_front.eq_of_pinning pinning).1
  restored := h.at_front.pinned
  unpinned := by
    intro free
    rcases h.at_front.read with ⟨next, -⟩ | ⟨pinned, -⟩
    · exact next
    · exact absurd pinned free

/-- When no thread pins or extracts, the ring serves its front, wherever the pushes of threads
stand. -/
theorem System.Sound.serves (h : s.Sound first c unread) (aside : ∀ σ ∈ s.stages, σ.IsAside) :
    s.ring.Serves s.ring.unread := by
  have free_of_pin : tally Stage.pins s.stages = 0 := by
    refine tally_eq_zero fun σ member => ?_
    cases σ with
    | pinning position => exact (aside _ member).elim
    | _ => rfl
  have left : tally (Stage.extracts s.ring.freed) s.stages = 0 := by
    refine tally_eq_zero fun σ member => ?_
    cases σ with
    | extracting position taken => exact (aside _ member).elim
    | _ => rfl
  have freed_le := h.cursors.freed_le
  have front_le := h.cursors.front_le
  have visible_le := h.cursors.visible_le
  have fits := h.cursors.fits
  -- A position between `freed` and the front would have an extractor.
  have front : s.front first = s.ring.freed := by
    rw [h.cursors.extractors] at left
    by_contra behind
    rw [window_inside (Nat.le_refl _) (by omega)] at left
    cases left
  have read : s.ring.read = .next s.ring.freed := by
    rcases h.at_front.read with ⟨next, -⟩ | ⟨-, one⟩
    · rw [next, front]
    · omega
  refine Ring.serves_unread read (by omega) (by omega) fun position above below => ?_
  exact h.occupancy.entry_occupied h.cursors above (by omega)
    (h.cursors.filled_of_unread (by omega) below)

end Protocol

/-! ## Rings that calls find -/

/-- The rings that a call can find. -/
inductive Ring.IsFound : Ring α → Prop where
  -- In a session, also while constructors run.
  | inSession {setup : Session.Setup α} {s : Session α} {pending : List (Session.Pending α)}
      {c : Session.Channel α} (reachable : Session.Reachable setup s pending)
      (member : c ∈ s.channels) : IsFound c.ring
  -- With admissions that are out, to be published or given up in any order.
  | withAdmissions {r : Ring α} {c : Nat} {unread : List α} {s : Admissions α}
      (rest : r.Holds c unread 0) (reached : Admissions.Reached r s) : IsFound s.ring
  -- Among threads of which none has the front.
  | amongThreads {r : Ring α} {c : Nat} {unread : List α} {calls : List (List (Protocol.Request α))}
      {s : Protocol.System α} (rest : r.Holds c unread 0)
      (reachable : Protocol.Reachable (.start r calls) s) (aside : ∀ σ ∈ s.stages, σ.IsAside) :
        IsFound s.ring

theorem Ring.IsFound.serves {r : Ring α} (found : r.IsFound) : r.Serves r.unread := by
  cases found with
  | inSession reachable member =>
    obtain ⟨capacity, entries, holds⟩ := (reachable.between.sound.consistent.each _ member).rest
    rw [holds.unread]
    exact holds.serves
  | withAdmissions rest reached =>
    obtain ⟨entries, sound⟩ := reached.sound rest
    rw [sound.holds.unread]
    exact sound.holds.serves
  | amongThreads rest reachable aside => exact (reachable.sound rest).serves aside

/-! ## Sessions -/

namespace Session

/-- What the handle of a name is told about the front of its queue. -/
structure TellsFront (setup : Setup α) (s : Session α) (name : String) (c : Channel α)
    (h : Handle) : Prop where
  shown : h.role = .owner → c.policy = none →
    s.perform setup name .front = ⟨s, .entry c.ring.unread.head?, []⟩
  -- A consumer is told a clone, unless that breaks off.
  cloned : h.role = .consumer → c.policy = none → ∃ made,
    c.ring.LookEnds (setup.kind.cloning.copy 0) (fun copy => [.cloned (.single copy)])
      c.ring.unread.head? made ∧
      s.perform setup name .front = ⟨s, resultOfCall (made.map .entry), made.effects⟩
  popped : h.role ≠ .producer → c.policy = none →
    (s.perform setup name .popFront).result = .entry c.ring.unread.head?
  -- Whoever looks, and however the look ends, the session is as it was.
  untouched : (s.perform setup name .front).session = s

section Looks

variable {setup : Setup α} {s : Session α} {name : String} {c : Channel α} {h : Handle}
  {before after : List (Channel α)} {made : Call α (Option α)} {look : α → Except Fault α}
  {oldest : Option α}

/-- A look that clones takes no block and leaves the ring, and so the session. -/
theorem Located.call_looked (place : Located (.name name) s.channels before c after)
    (looked : c.ring.LookEnds look (fun copy => [.cloned (.single copy)]) oldest made) :
    s.call (.name name) made .entry = ⟨s, resultOfCall (made.map .entry), made.effects⟩ := by
  have same := looked.ring
  simp only [Session.call, same, place.setRing_self]
  cases looked <;> rfl

theorem Located.tellsFront (place : Located (.name name) s.channels before c after)
    (found : s.find? (.name name) = some (c, h)) (serves : c.ring.Serves c.ring.unread) :
    TellsFront setup s name c h where
  shown := by
    intro owner plain
    rw [← serves.front?]
    simp [perform, found, owner, plain, Action.isOffered, Action.needsAll, useHandle, answer]
  cloned := by
    intro consumer plain
    have looked := serves.cloned setup.kind.cloning
    refine ⟨_, looked, ?_⟩
    rw [← place.call_looked looked]
    simp [perform, found, consumer, plain, Action.isOffered, Action.needsAll, useHandle]
  popped := by
    intro role plain
    obtain ⟨left, taken, -, -⟩ := serves.taken
    simp [perform, found, role, plain, Action.isOffered, Action.needsAll, useHandle, Session.call,
      Ring.popFront, taken, Call.returned]
  untouched := by
    simp only [perform, found]
    split
    · rfl
    · rw [if_neg (by simp [Action.needsAll]), useHandle]
      split
      · rfl
      · rw [place.call_looked (serves.cloned setup.kind.cloning)]

end Looks

end Session

/-! ## Main result -/

/-- Every call finds a ring whose ways to the front agree, and in which a look leaves no trace. What
a session tells about the front is that, and threads put back what they pinned. -/
theorem fronts_agree :
    (∀ r : Ring α, r.IsFound → r.AgreesOnFront r.unread.head?) ∧
    (∀ (setup : Session.Setup α) (s : Session α) (pending : List (Session.Pending α)),
      Session.Reachable setup s pending → ∀ name c h, s.find? (.name name) = some (c, h) →
        Session.TellsFront setup s name c h) ∧
    ∀ (r : Ring α) (c : Nat) (unread : List α) (calls : List (List (Protocol.Request α)))
      (s : Protocol.System α),
      r.Holds c unread 0 → Protocol.Reachable (.start r calls) s → s.PinsFront r.freed := by
  refine ⟨fun r found => found.serves.agrees, ?_, ?_⟩
  · intro setup s pending reachable name c h found
    obtain ⟨⟨before, after, place⟩, -⟩ := reachable.located found
    exact place.tellsFront found (Ring.IsFound.inSession reachable place.mem).serves
  · intro r c unread calls s rest reachable
    exact (reachable.sound rest).pinsFront

/-- The oldest entry of a queue stands in the last slot while a constructor makes another one, and
cannot be cloned for the consumer that looks at it; and a thread has claimed a position that it has
not published. -/
theorem fronts_agree_around_a_push :
    let setup : Session.Setup Nat := ⟨⟨8, .calling fun _ _ => .error (.cloneFailed "2"), none⟩,
      none, .endless⟩
    let steps : List (Session.Step Nat) :=
      [.create "q" (.queue (.ofCapacity 2)), .act "q" (.push (.asked .block) 1),
        .act "q" (.push (.asked .block) 2),
        .act "q" .popFront, .act "q" (.split "p" "c")]
    let s := ((Session.Step.runAll setup steps .empty).1.beginEmplace "p" (.asked .block)).session
    let threads :=
      (Protocol.System.start (.empty 2) [[.push ⟨.block, 5, false, false⟩], [.peek]]).run
        [0, 0, 0, 0, 1, 1, 1]
    (∃ push, Session.Reachable setup s [push]) ∧
      (∃ c h, s.find? (.name "c") = some (c, h) ∧ c.ring.freed = 1 ∧ c.ring.unread = [2] ∧
        c.ring.len = 2 ∧
        c.ring.AgreesOnFront (some 2) ∧ Session.TellsFront setup s "c" c h) ∧
      threads.stages = [.claimed 0 5 false, .pinning 0] ∧ threads.PinsFront 0 := by
  intro setup steps s threads
  have sequential : Session.Step.AreSequential steps := ⟨trivial, rfl, rfl, rfl, rfl, trivial⟩
  have finished : (Session.Step.runAll setup steps .empty).2.any Session.Answer.isWaiting =
    false := by decide +kernel
  have before := Session.Reachable.start.runAll sequential finished
  have idle : (Session.Step.runAll setup steps .empty).1.pushes = 0 := by decide +kernel
  have under_way : s.pushes = 1 := by decide +kernel
  obtain ⟨push, reachable⟩ : ∃ push, Session.Reachable setup s [push] := by
    rcases Session.beginEmplace_pushes _ "p" (.asked .block) with
      ⟨_, -, same⟩ | ⟨policy, evicted, began, -⟩
    · exact absurd (under_way.symm.trans (same.trans idle)) (by decide)
    · exact ⟨_, before.entered began⟩
  have shared : Protocol.Reachable (.start (.empty 2) [[.push ⟨.block, 5, false, false⟩], [.peek]])
    threads :=
    Protocol.reachable_run .start _
  obtain ⟨agree, tell, pins⟩ := @fronts_agree Nat
  refine ⟨⟨push, reachable⟩, ?_, rfl, pins _ 2 [] _ threads (Ring.holds_empty 2) shared⟩
  have seen : (s.find? (.name "c")).map (fun (c, _) => (c.ring.freed, c.ring.unread, c.ring.len)) =
      some (1, [2], 2) := by decide +kernel
  obtain ⟨⟨c, h⟩, found, facts⟩ := Option.map_eq_some_iff.mp seen
  simp only [Prod.mk.injEq] at facts
  obtain ⟨freed, unread, len⟩ := facts
  obtain ⟨⟨earlier, later, place⟩, -⟩ := reachable.located found
  have front := agree c.ring (.inSession reachable place.mem)
  rw [unread] at front
  exact ⟨c, h, found, freed, unread, len, front, tell setup s _ reachable "c" c h found⟩

end RingQueue
