import RingQueue.Proofs.Ring.Copies
import RingQueue.Proofs.Session.Frames
import RingQueue.Proofs.Session.Reachable

/-!
Clones of queues.

A queue is cloned whole or not at all (`clones_apart`). The clone has the capacity of the original
and the clones of its unread entries, and counts none of the pushes under way on the original; from
then on neither of the two is touched by what is done with the other. When an entry breaks off, the
clones made before it are dropped, and nothing else has happened.
-/
namespace RingQueue.Session

variable {α : Type}

/-- The channel of a ring that one owner has under a name. -/
def Channel.ownedBy (name : String) (ring : Ring α) : Channel α :=
  ⟨ring, none, [.named name .owner]⟩

/-- The reply to a caller whose queue was cloned under a new name. -/
structure Clones (setup : Setup α) (s : Session α) (name new : String) (c : Channel α) (h : Handle)
    (copies : List α) (copy : Ring α) (reply : Reply α (Result α)) : Prop where
  capacity : copy.capacity = c.ring.capacity
  unread : copy.unread = copies
  -- Pushes that are under way on the original are not counted.
  len : copy.len = copies.length
  rest : copy.Holds c.ring.capacity copies 0
  -- An old handle of the new name is dropped once the copy is made.
  channels : reply.session.channels =
    (dropHandles setup.kind [new] s.channels).channels ++ [.ownedBy new copy]
  result : reply.result = resultOf (dropHandles setup.kind [new] s.channels).fault .done
  effects : ∃ batch : Batch α, batch.toList = copies ∧ reply.effects =
    [.cloned batch] ++ setup.kind.allocate c.ring.capacity ++
      [.reported (.ringCreated c.ring.capacity)] ++
        (dropHandles setup.kind [new] s.channels).effects
  found : reply.session.find? (.name new) = some (.ownedBy new copy, .named new .owner)
  kept : .name new ∉ c.keys → reply.session.find? (.name name) = some (c, h)
  -- Whatever goes on later without one of the two leaves it as it is.
  copy_untouched : ∀ t, Elsewhere setup (Channel.ownedBy new copy).keys reply.session t →
    .ownedBy new copy ∈ t.channels
  original_untouched : .name new ∉ c.keys → ∀ t, Elsewhere setup c.keys reply.session t →
    c ∈ t.channels
  -- That holds at any later time, of the channels as they stand then.
  later_untouched : ∀ t, Elsewhere setup [] reply.session t →
    ∀ d ∈ t.channels, ∀ u, Elsewhere setup d.keys t u → d ∈ u.channels

section Cloning

variable {setup : Setup α} {s : Session α} {name : String} {c : Channel α} {h : Handle}

theorem perform_clone (found : s.find? (.name name) = some (c, h)) (owner : h.role = .owner)
    (plain : c.policy = none) (new : String) : s.perform setup name (.clone new) = s.cloneQueue
    setup name new c := by
  simp [perform, found, owner, plain, Action.isOffered, Action.needsAll, useHandle]

/-- The copy gets its name after an old handle of that name has lost it. -/
theorem Located.cloneQueue_made {before after : List (Channel α)}
    (place : Located (.name name) s.channels before c after) (plain : c.policy = none)
    {copy : Ring α} {effects : List (Effect α)}
    (made : c.ring.duplicate setup.kind = .returned copy c.ring effects) (new : String) :
    s.cloneQueue setup name new c = s.place setup.kind s.channels (.ownedBy new copy)
      effects .done := by
  simp only [cloneQueue, made, Call.returned, plain]
  rw [place.setRing_self]
  rfl

theorem Located.cloneQueue_failed {before after : List (Channel α)}
    (place : Located (.name name) s.channels before c after) {fault : Fault} {batch : Batch α}
    (failed : c.ring.duplicate setup.kind =
      ⟨.aborted fault, c.ring, [.cloned batch, .dropped batch]⟩)
    (new : String) :
    s.cloneQueue setup name new c = ⟨s, .aborted fault, [.cloned batch, .dropped batch]⟩ := by
  simp only [cloneQueue, failed]
  rw [place.setRing_self]
  rfl

/-- A copy that got its name stands beside the channels that were there. -/
theorem Reachable.cloned {pending : List (Pending α)} (reachable : Reachable setup s pending)
    (found : s.find? (.name name) = some (c, h)) {new : String} {copies : List α} {copy : Ring α}
    (holds : copy.Holds c.ring.capacity copies 0) {batch : Batch α} (made : batch.toList = copies)
    (cloned : s.perform setup name (.clone new) = s.place setup.kind s.channels (.ownedBy new copy)
      ([.cloned batch] ++ setup.kind.allocate c.ring.capacity ++
        [.reported (.ringCreated c.ring.capacity)]) .done) :
    Clones setup s name new c h copies copy (s.perform setup name (.clone new)) := by
  have finished : (s.perform setup name (.clone new)).result ≠ .waiting := by
    rw [cloned]
    exact resultOf_ne_waiting _ nofun
  have later := (reachable.next (.act name (.clone new))
    (.acted rfl finished)).between.sound.consistent.distinct
  have last : .ownedBy new copy ∈ (s.perform setup name (.clone new)).session.channels := by
    rw [cloned]
    exact List.mem_append_right _ List.mem_cons_self
  have original (apart : .name new ∉ c.keys) :
    c ∈ (s.perform setup name (.clone new)).session.channels := by
    rw [cloned]
    refine mem_place (findChannel_eq_some found).1 ?_ _ _
    rintro other ⟨⟩
    · exact apart
    · contradiction
  obtain ⟨-, handle, here⟩ := findChannel_eq_some found
  refine ⟨holds.capacity, holds.unread, holds.len, holds, ?_, ?_, ⟨batch, made, ?_⟩, ?_,
    ?_, ?_, ?_, ?_⟩
  · rw [cloned]
    rfl
  · rw [cloned]
    rfl
  · rw [cloned]
    rfl
  · exact findChannel_of_mem later last List.mem_cons_self List.mem_cons_self
  · exact fun apart => findChannel_of_mem later (original apart) handle here
  · exact fun t elsewhere => elsewhere.mem last
  · exact fun apart t elsewhere => elsewhere.mem (original apart)
  · exact fun t _ d member u elsewhere => elsewhere.mem member

end Cloning

/-! ## Main result -/

/-- Whatever pushes are under way, cloning a queue makes a queue of its own with clones of the
unread entries, or, when one of them breaks off, drops the clones made before it and leaves the
session as it was. The front of the original is not pinned any more. -/
theorem clones_apart {setup : Setup α} {s : Session α} {pending : List (Pending α)}
    (reachable : Reachable setup s pending) {name : String} {c : Channel α} {h : Handle}
    (found : s.find? (.name name) = some (c, h)) (owner : h.role = .owner) (plain : c.policy = none)
    (new : String) :
    c.ring.read = .next c.ring.freed ∧
    (∀ copies, c.ring.unread.mapIdx setup.kind.cloning.copy = copies.map .ok →
      ∃ copy, Clones setup s name new c h copies copy (s.perform setup name (.clone new))) ∧
    ∀ before a rest copies fault, c.ring.unread = before ++ a :: rest →
      before.mapIdx setup.kind.cloning.copy = copies.map .ok →
      setup.kind.cloning.copy before.length a = .error fault →
      ∃ batch : Batch α, batch.toList = copies ∧
        s.perform setup name (.clone new) =
          ⟨s, .aborted fault, [.cloned batch, .dropped batch]⟩ := by
  obtain ⟨⟨earlier, later, place⟩, capacity, entries, holds⟩ := reachable.located found
  obtain rfl := holds.capacity
  obtain rfl := holds.unread
  refine ⟨holds.read, ?_, ?_⟩
  · intro copies cloned
    obtain ⟨batch, copy, made, duplicated, rest⟩ := holds.duplicate_made setup.kind cloned
    refine ⟨copy, reachable.cloned found rest made ?_⟩
    rw [perform_clone found owner plain, place.cloneQueue_made plain duplicated]
  · intro before a rest copies fault split cloned fails
    obtain ⟨batch, made, failed⟩ := holds.duplicate_failed setup.kind split cloned fails
    refine ⟨batch, made, ?_⟩
    rw [perform_clone found owner plain, place.cloneQueue_failed failed]

/-- A constructor clones the queue into which its entry is to be pushed, whose unread entries stand
around the end of the slots; of another queue, the second clone fails. -/
theorem clones_apart_inside_a_constructor :
    let clone (before a : Nat) : Except Fault Nat :=
      if a = 6 then .error (.cloneFailed "6") else .ok (10 * before + a)
    let setup : Setup Nat := ⟨⟨8, .calling clone, none⟩, none, .endless⟩
    let steps : List (Step Nat) :=
      [.create "p" (.queue (.ofCapacity 3)), .act "p" (.push (.asked .block) 1),
        .act "p" (.push (.asked .block) 2),
        .act "p" (.drain none), .act "p" (.push (.asked .block) 3),
          .act "p" (.push (.asked .block) 4),
        .create "q" (.queue (.ofCapacity 2)), .act "q" (.push (.asked .block) 5),
          .act "q" (.push (.asked .block) 6)]
    let s := ((Step.runAll setup steps .empty).1.beginEmplace "p" (.asked .reject)).session
    (∃ push, Reachable setup s [push]) ∧
      (∃ c h, s.find? (.name "p") = some (c, h) ∧ h.role = .owner ∧ c.policy = none ∧
        c.ring.freed = 2 ∧ c.ring.unread = [3, 4] ∧ c.ring.len = 3 ∧
        ∃ copy, Clones setup s "p" "r" c h [3, 14] copy (s.perform setup "p" (.clone "r"))) ∧
      ∃ c h, s.find? (.name "q") = some (c, h) ∧ h.role = .owner ∧ c.policy = none ∧
        c.ring.unread = [5, 6] ∧
        ∃ batch : Batch Nat, batch.toList = [5] ∧
          s.perform setup "q" (.clone "r") =
            ⟨s, .aborted (.cloneFailed "6"), [.cloned batch, .dropped batch]⟩ := by
  intro clone setup steps s
  have sequential : Step.AreSequential steps :=
    ⟨trivial, rfl, rfl, rfl, rfl, rfl, trivial, rfl, rfl, trivial⟩
  have finished : (Step.runAll setup steps .empty).2.any Answer.isWaiting = false := by
    decide +kernel
  have before := Reachable.start.runAll sequential finished
  have idle : (Step.runAll setup steps .empty).1.pushes = 0 := by decide +kernel
  have under_way : s.pushes = 1 := by decide +kernel
  obtain ⟨push, reachable⟩ : ∃ push, Reachable setup s [push] := by
    rcases beginEmplace_pushes _ "p" (.asked .reject) with
      ⟨_, -, same⟩ | ⟨policy, evicted, began, -⟩
    · exact absurd (under_way.symm.trans (same.trans idle)) (by decide)
    · exact ⟨_, before.entered began⟩
  refine ⟨⟨push, reachable⟩, ?_, ?_⟩
  · have seen : (s.find? (.name "p")).map
      (fun (c, h) => (h.role, c.policy, c.ring.freed, c.ring.unread, c.ring.len)) =
        some (.owner, none, 2, [3, 4], 3) := by decide +kernel
    obtain ⟨⟨c, h⟩, found, facts⟩ := Option.map_eq_some_iff.mp seen
    simp only [Prod.mk.injEq] at facts
    obtain ⟨owner, plain, freed, unread, len⟩ := facts
    obtain ⟨-, whole, -⟩ := clones_apart reachable found owner plain "r"
    exact ⟨c, h, found, owner, plain, freed, unread, len, whole [3, 14] (by rw [unread]; rfl)⟩
  · have seen : (s.find? (.name "q")).map (fun (c, h) => (h.role, c.policy, c.ring.unread)) =
        some (.owner, none, [5, 6]) := by decide +kernel
    obtain ⟨⟨c, h⟩, found, facts⟩ := Option.map_eq_some_iff.mp seen
    simp only [Prod.mk.injEq] at facts
    obtain ⟨owner, plain, unread⟩ := facts
    obtain ⟨-, -, fails⟩ := clones_apart reachable found owner plain "r"
    exact ⟨c, h, found, owner, plain, unread, fails [5] 6 [] [5] _ unread rfl rfl⟩

end RingQueue.Session
