import RingQueue.Proofs.Ring.Clearing
import RingQueue.Proofs.Session.Ledger
import RingQueue.Proofs.Session.Rebuilding

/-!
Queues that are cleared while an entry breaks off.

Where no entry breaks off, all entries are dropped once and are gone. Where one does, the session
stays as it was, so that later steps find the dropped entries in the queue, hand them out and drop
them again (`clear_repeats_drops`).
-/
namespace RingQueue.Session

variable {α : Type} {setup : Setup α} {s : Session α} {name : String} {c : Channel α} {h : Handle}
  {action : Action α}

/-! ## Who clears a queue -/

/-- Who has a queue for itself has its only handle. -/
theorem Exclusive.IsAskedBy.only (asked : Exclusive.clear.IsAskedBy action c h) (sound : s.Sound)
    (found : s.find? (.name name) = some (c, h)) : c.handles = [h] := by
  obtain ⟨member, handle, -⟩ := findChannel_eq_some found
  have offered := asked.offered
  rcases asked.asks with rfl | ⟨-, sole⟩
  · refine (sound.consistent.each c member).sole h handle ?_
    simp only [Exclusive.asOwner, Action.isOffered, Bool.and_eq_true, decide_eq_true_eq] at offered
    exact offered.2
  · obtain ⟨one, handles⟩ := List.length_eq_one_iff.mp (of_decide_eq_true sole)
    rw [handles, List.mem_singleton] at handle
    rw [handles, handle]

/-- With the only handle of a queue, the queue goes. -/
theorem Located.drop_only {before after : List (Channel α)}
    (place : Located (.name name) s.channels before c after)
    (found : s.find? (.name name) = some (c, h)) (only : c.handles = [h]) (free : h.keptBy = []) :
    (s.perform setup name .drop).effects = (c.ring.release setup.kind).2 := by
  have named : h.name = some name := by
    obtain ⟨-, -, key⟩ := findChannel_eq_some found
    simpa [Handle.keys, free, eq_comm] using key
  have gone : c.without (.name name) = [] := by
    simp [Channel.without, only, Handle.without, named, free]
  simp only [perform, found, Action.isOffered, Action.needsAll, useHandle, drop,
    place.dropHandle, gone]
  rfl

/-! ## How a clear goes -/

/-- All unread entries are dropped, oldest first, and the ring is a new one. -/
structure ClearsOnce (setup : Setup α) (c : Channel α) (h : Handle) (name : String)
    (action : Action α) (cleared : Reply α (Result α)) : Prop where
  result : cleared.result = action.rebuilt
  dropped : Effect.drops cleared.effects = c.ring.unread
  emptied : cleared.session.find? (.name name) = some ({ c with ring := .empty c.ring.capacity }, h)

/-- The entries up to the one that breaks off are dropped, and are as before in the queue. -/
structure RepeatsDrops (setup : Setup α) (s : Session α) (c : Channel α) (name : String)
    (action : Action α) (dropped : List α) : Prop where
  performed : ∃ batch : Batch α, batch.toList = dropped ∧
    s.perform setup name action =
      ⟨s, .aborted .dropFailed, [.reported (.clearing c.ring.capacity c.ring.unread.length),
        .dropped batch]⟩
  -- Whatever steps follow, they go as without the clear, also when they clear the queue once more.
  unnoticed : ∀ steps, ∃ answer, answer.report.result = .aborted .dropFailed ∧
    Effect.drops answer.report.effects = dropped ∧
    Step.runAll setup (.act name action :: steps) s =
      ((Step.runAll setup steps s).1, answer :: (Step.runAll setup steps s).2)
  leads : c.ring.LeadsTo setup.kind dropped
  again : Effect.drops (s.perform setup name .drop).effects = dropped

section Clearing

variable {before after : List (Channel α)} {entries : List α}

theorem Located.clearsOnce (place : Located (.name name) s.channels before c after)
    (distinct : (keysOf s.channels).Nodup) (found : s.find? (.name name) = some (c, h))
    (holds : c.ring.Holds c.ring.capacity entries 0) (asked : Exclusive.clear.IsAskedBy action c h)
    (drops : setup.kind.CanDrop c.ring.unread) :
    ClearsOnce setup c h name action (s.perform setup name action) := by
  rw [holds.unread] at drops
  obtain ⟨-, handle, key⟩ := findChannel_eq_some found
  rw [asked.clears found, holds.clear_eq drops]
  refine ⟨rfl, by simp [Session.call, Call.returned], ?_⟩
  have moved : Located (.name name) (before ++ { c with ring := .empty c.ring.capacity } :: after)
    before
      { c with ring := .empty c.ring.capacity } after := place.replaced rfl
  have keys := place.keysOf_ring (.empty c.ring.capacity)
  simp only [find?, Session.call, Session.after, Call.returned, place.setRing]
  refine findChannel_of_mem ?_ moved.mem handle key
  rwa [keys]

theorem Located.repeatsDrops (place : Located (.name name) s.channels before c after)
    (found : s.find? (.name name) = some (c, h)) (only : c.handles = [h])
    (holds : c.ring.Holds c.ring.capacity entries 0) (asked : Exclusive.clear.IsAskedBy action c h)
    {earlier behind : List α} {a : α}
    (breaks : setup.kind.BreaksOffAt c.ring.unread earlier a behind) :
    RepeatsDrops setup s c name action (earlier ++ [a]) := by
  have unread := holds.unread
  rw [unread] at breaks
  obtain ⟨batch, dropped, cleared⟩ := holds.clear_breaksOff breaks
  have performed : s.perform setup name action =
      ⟨s, .aborted .dropFailed, [.reported (.clearing c.ring.capacity c.ring.unread.length),
        .dropped batch]⟩ := by
    rw [asked.clears found, cleared, unread, Session.call]
    dsimp only
    rw [place.setRing_self]
    rfl
  have leads := holds.leadsTo breaks
  refine ⟨⟨batch, dropped, performed⟩, ?_, leads, ?_⟩
  · intro steps
    have run : Step.run setup (.act name action) s =
      (s, .plain ⟨.aborted .dropFailed, s.status? name,
        [.reported (.clearing c.ring.capacity c.ring.unread.length), .dropped batch]⟩) := by
      rw [Step.run, performed]
    have answered := congrArg Prod.snd run
    refine ⟨(Step.run setup (.act name action) s).2, ?_, ?_, ?_⟩
    · rw [answered]
      rfl
    · rw [answered]
      simp [Answer.report, dropped]
    · rw [Step.runAll, run]
      rfl
  · rw [place.drop_only found only asked.free]
    exact leads.released

end Clearing

/-! ## Main result -/

/-- In every session, a queue is cleared once if none of its entries breaks off while it is dropped.
Otherwise the entries that have been dropped are handed out and dropped again. -/
theorem clear_repeats_drops {pending : List (Pending α)} (reachable : Reachable setup s pending)
    (found : s.find? (.name name) = some (c, h)) (asked : Exclusive.clear.IsAskedBy action c h) :
    (setup.kind.CanDrop c.ring.unread → ClearsOnce setup c h name action
      (s.perform setup name action)) ∧
    (∀ before a behind, setup.kind.BreaksOffAt c.ring.unread before a behind →
      RepeatsDrops setup s c name action (before ++ [a])) ∧
    ((∀ c' h', (s.perform setup name action).session.find? (.name name) = some (c', h') →
      ∀ a ∈ Effect.drops (s.perform setup name action).effects, a ∉ c'.ring.unread) ↔
        setup.kind.CanDrop c.ring.unread) := by
  have sound := reachable.between.sound
  obtain ⟨⟨before, after, place⟩, capacity, entries, holds⟩ := reachable.located found
  obtain rfl := holds.capacity
  rw [asked.alone setup sound found rfl ⟨_, rfl⟩] at holds
  have once : setup.kind.CanDrop c.ring.unread → ClearsOnce setup c h name action
    (s.perform setup name action) :=
    place.clearsOnce sound.consistent.distinct found holds asked
  have again : ∀ earlier a behind, setup.kind.BreaksOffAt c.ring.unread earlier a behind →
      RepeatsDrops setup s c name action (earlier ++ [a]) :=
    fun _ _ _ => place.repeatsDrops found (asked.only sound found) holds asked
  refine ⟨once, again, ?_, ?_⟩
  · intro apart
    rcases setup.kind.canDrop_or_breaksOffAt c.ring.unread with drops | ⟨earlier, a, behind, breaks⟩
    · exact drops
    · obtain ⟨batch, dropped, performed⟩ := (again earlier a behind breaks).performed
      rw [performed] at apart
      refine absurd ?_ (apart c h found a (by simp [dropped]))
      rw [breaks.split]
      simp
  · intro drops c' h' there a dropped
    rw [(once drops).emptied] at there
    cases there
    rw [(Ring.holds_empty c.ring.capacity).unread]
    exact List.not_mem_nil

/-- The entries stand around the end of the slots, and the second of three breaks off. -/
theorem clear_repeats_drops_around_the_end :
    let setup : Setup Nat := ⟨⟨8, .verbatim, some (· == 3)⟩, none, .endless⟩
    let steps : List (Step Nat) :=
      [.create "q" (.queue (.ofCapacity 3)), .act "q" (.push (.asked .block) 1),
        .act "q" (.push (.asked .block) 2),
        .act "q" .popFront, .act "q" (.push (.asked .block) 3), .act "q" (.push (.asked .block) 4)]
    let s := (Step.runAll setup steps .empty).1
    Reachable setup s [] ∧ ∃ c h, s.find? (.name "q") = some (c, h) ∧ c.ring.freed = 1 ∧
      c.ring.unread = [2, 3, 4] ∧
      Exclusive.clear.IsAskedBy .clear c h ∧ setup.kind.BreaksOffAt c.ring.unread [2] 3 [4] ∧
      RepeatsDrops setup s c "q" .clear [2, 3] := by
  intro setup steps s
  have sequential : Step.AreSequential steps := ⟨trivial, rfl, rfl, rfl, rfl, rfl, trivial⟩
  have finished : (Step.runAll setup steps .empty).2.any Answer.isWaiting = false := by
    decide +kernel
  have reachable : Reachable setup s [] := Reachable.start.runAll sequential finished
  have seen : (s.find? (.name "q")).map (fun (c, h) => (c.ring.freed, c.ring.unread, c.policy, h)) =
      some (1, [2, 3, 4], none, .named "q" .owner) := by decide +kernel
  obtain ⟨⟨c, h⟩, found, facts⟩ := Option.map_eq_some_iff.mp seen
  simp only [Prod.mk.injEq] at facts
  obtain ⟨freed, unread, plain, rfl⟩ := facts
  have asked : Exclusive.clear.IsAskedBy .clear c (.named "q" .owner) :=
    ⟨by rw [plain]; rfl, rfl, .inl rfl⟩
  have breaks : setup.kind.BreaksOffAt c.ring.unread [2] 3 [4] := by
    refine ⟨unread, ?_, _, rfl, rfl⟩
    intro fails known a member
    cases known
    rw [List.mem_singleton.mp member]
    rfl
  obtain ⟨-, again, -⟩ := clear_repeats_drops reachable found asked
  exact ⟨reachable, c, _, found, freed, unread, asked, breaks, again [2] 3 [4] breaks⟩

/-- Of three entries the second breaks off when the queue is cleared. The first, which has been
dropped, is popped then, and the second is dropped again with the queue: more leaves the queue than
came in. -/
theorem dropped_entries_leave_again :
    let setup : Setup Nat := ⟨⟨8, .verbatim, some (· == 2)⟩, none, .endless⟩
    let steps : List (Step Nat) :=
      [.create "q" (.queue (.ofCapacity 3)), .act "q" (.push (.asked .block) 1),
        .act "q" (.push (.asked .block) 2),
        .act "q" (.push (.asked .block) 3), .act "q" .clear, .act "q" .popFront]
    let s := (Step.runAll setup steps .empty).1
    let answers := (Step.runAll setup steps .empty).2
    let l := Step.ledgers setup steps .empty answers
    answers.map (fun answer => Effect.drops answer.report.effects) = [[], [], [], [], [1, 2], []] ∧
      l.handed = {1} ∧ Effect.drops (s.close setup).effects = [2] ∧
      ¬ l.handed + l.dropped + Effect.drops (s.close setup).effects ≤ l.given + l.cloned := by
  intro setup steps s answers l
  exact ⟨by decide +kernel, by decide +kernel, by decide +kernel, by decide +kernel⟩

end RingQueue.Session
