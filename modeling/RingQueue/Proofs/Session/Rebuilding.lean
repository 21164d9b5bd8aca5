import RingQueue.Proofs.Ring.Rebuilding
import RingQueue.Proofs.Session.Alike
import RingQueue.Proofs.Session.Echoes
import RingQueue.Proofs.Session.Reachable

/-!
Queues that are rebuilt in place.

A caller who has a queue for itself can enlarge it or clear it. No later steps tell the queue from a
new one of that capacity which got the unread entries from pushes, or got none (`rebuilds_unseen`).
A capacity that is not larger, and one that no ring can have, leave everything as it is.
-/
namespace RingQueue.Session

variable {α : Type}

/-! ## Who rebuilds a queue -/

/-- The action asks for an operation of a caller who has the queue for itself: its owner, or its
last handle. -/
structure Exclusive.IsAskedBy (operation : Exclusive α) (action : Action α) (c : Channel α)
    (h : Handle) : Prop where
  offered : action.isOffered h.role c.policy.isSome = true
  free : h.keptBy = []
  asks : action = operation.asOwner ∨ action = .exclusive operation ∧ c.isSole = true

/-- What is answered when a ring has been rebuilt. -/
def Action.rebuilt : Action α → Result α
  | .exclusive _ => .exclusive (some .done)
  | _ => .done

namespace Exclusive.IsAskedBy

variable {setup : Setup α} {s : Session α} {name : String} {c : Channel α} {h : Handle}
  {action : Action α} {capacity : Nat}

theorem perform_eq {operation : Exclusive α} (asked : operation.IsAskedBy action c h)
    (found : s.find? (.name name) = some (c, h)) :
    s.perform setup name action = s.useHandle setup name c h.role action := by
  simp only [perform, found, asked.offered, asked.free]
  simp

theorem reserves (asked : (Exclusive.reserve capacity).IsAskedBy action c h)
    (found : s.find? (.name name) = some (c, h)) :
    s.perform setup name action =
      s.call (.name name) (c.ring.reserve setup.kind capacity) fun _ => action.rebuilt := by
  rw [asked.perform_eq found]
  rcases asked.asks with rfl | ⟨rfl, sole⟩
  · rfl
  · rw [useHandle, Session.exclusive, if_pos sole, Exclusive.apply, call_map]
    rfl

theorem clears (asked : Exclusive.clear.IsAskedBy action c h)
    (found : s.find? (.name name) = some (c, h)) :
    s.perform setup name action = s.call (.name name) (c.ring.clear setup.kind) fun _ =>
      action.rebuilt := by
  rw [asked.perform_eq found]
  rcases asked.asks with rfl | ⟨rfl, sole⟩
  · rfl
  · rw [useHandle, Session.exclusive, if_pos sole, Exclusive.apply, call_map]
    rfl

/-- No constructor is pushing into a ring that is about to be rebuilt. -/
theorem alone {operation : Exclusive α} (asked : operation.IsAskedBy action c h) (setup : Setup α)
    (sound : s.Sound) (found : s.find? (.name name) = some (c, h))
    (rebuilds : operation.asOwner.needsAll = true)
    (calls : ∃ made, operation.asOwner.call? setup c h.role = some made) :
    pushCount c.keys = 0 := by
  have free := asked.free
  rcases asked.asks with rfl | ⟨rfl, sole⟩
  · obtain ⟨made, call⟩ := calls
    exact sound.alone_of_needsAll found asked.offered (fun _ => free) call rebuilds
  · have call : (Action.exclusive operation).call? setup c h.role =
        some ((operation.apply setup.kind c.ring).map fun x => .exclusive (some x)) := if_pos sole
    exact sound.alone_of_needsAll found asked.offered (fun _ => free) call rfl

end Exclusive.IsAskedBy

/-! ## What can be seen of it -/

/-- How a queue takes a request for a capacity. -/
structure GrowsUnseen (setup : Setup α) (s : Session α) (name : String) (c : Channel α)
    (action : Action α) (capacity : Nat) : Prop where
  -- No steps tell the queue from a new one into which its unread entries were pushed in their
  -- order.
  grown : c.ring.capacity < capacity → capacity ≤ maxCapacity → setup.kind.HasBlock capacity →
    ∃ fresh filled, (Ring.create setup.kind capacity).result = .ok fresh ∧
      fresh.pushAll c.ring.unread = .returned () filled [] ∧
      (s.perform setup name action).result = action.rebuilt ∧
      (s.perform setup name action).effects = setup.kind.allocate capacity ++ setup.kind.free
        c.ring.capacity ++
        [.reported (.ringGrown c.ring.capacity capacity c.ring.unread.length)] ∧
      Indistinguishable setup (s.perform setup name action).session
        (s.after (setRing (.name name) filled s.channels) (s.perform setup name action).effects)
  kept : capacity ≤ c.ring.capacity → s.perform setup name action = ⟨s, action.rebuilt, []⟩
  refused : maxCapacity < capacity →
    s.perform setup name action = ⟨s, .aborted (.capacity (.tooLarge capacity)), []⟩
  blockless : c.ring.capacity < capacity → capacity ≤ maxCapacity → ¬ setup.kind.HasBlock capacity →
    s.perform setup name action = ⟨s, .aborted .layoutOverflow, []⟩

/-- How a queue is cleared: no steps tell it from a new one of its capacity. -/
def ClearsUnseen (setup : Setup α) (s : Session α) (name : String) (c : Channel α)
    (action : Action α) : Prop :=
  setup.kind.CanDrop c.ring.unread →
    ∃ fresh, (Ring.create setup.kind c.ring.capacity).result = .ok fresh ∧
      (s.perform setup name action).result = action.rebuilt ∧
      Effect.drops (s.perform setup name action).effects = c.ring.unread ∧
      Indistinguishable setup (s.perform setup name action).session
        (s.after (setRing (.name name) fresh s.channels) (s.perform setup name action).effects)

section Rebuilding

variable {setup : Setup α} {s : Session α} {name : String} {c : Channel α} {h : Handle}
  {action : Action α} {entries : List α} {before after : List (Channel α)}

/-- A request that is turned down has changed nothing. -/
theorem Located.reserve_refused (place : Located (.name name) s.channels before c after)
    (holds : c.ring.Holds c.ring.capacity entries 0) {capacity : Nat}
    (reserves : s.perform setup name action =
      s.call (.name name) (c.ring.reserve setup.kind capacity) fun _ => action.rebuilt)
    (larger : c.ring.capacity < capacity) {fault : Fault}
    (refused : setup.kind.checkSlots capacity = .error fault) :
    s.perform setup name action = ⟨s, .aborted fault, []⟩ := by
  rw [reserves, holds.reserve_refused larger refused, Session.call]
  dsimp only
  rw [place.setRing_self]
  rfl

theorem Located.growsUnseen (place : Located (.name name) s.channels before c after)
    (holds : c.ring.Holds c.ring.capacity entries 0) (sized : c.ring.Sized setup.kind)
    {capacity : Nat} (reserves : s.perform setup name action =
      s.call (.name name) (c.ring.reserve setup.kind capacity) fun _ => action.rebuilt) :
    GrowsUnseen setup s name c action capacity where
  grown := by
    intro larger bounded block
    obtain ⟨grown, fresh, filled, reserved, created, pushed, alike⟩ :=
      holds.reserve_alike setup.kind larger bounded block
    rw [← holds.unread] at reserved pushed
    rw [reserved] at reserves
    rw [reserves]
    refine ⟨fresh, filled, created, pushed, rfl, rfl, ?_⟩
    exact setRing_indistinguishable setup (s.after s.channels _) (.name name) alike
  kept := by
    intro smaller
    rw [reserves, holds.reserve_kept setup.kind smaller, Session.call, Call.returned]
    dsimp only
    rw [place.setRing_self]
    rfl
  refused := by
    intro excessive
    obtain ⟨-, bounded, -⟩ := (setup.kind.checkSlots_eq_ok_iff _).mp sized
    have larger := Nat.lt_of_le_of_lt bounded excessive
    have refused := setup.kind.checkSlots_of_refused (checkCapacity_of_too_large excessive)
    exact place.reserve_refused holds reserves larger refused
  blockless := by
    intro larger bounded overflow
    exact place.reserve_refused holds reserves larger
      (EntryKind.checkSlots_of_too_many_bytes (by omega) bounded overflow)

theorem clearsUnseen (holds : c.ring.Holds c.ring.capacity entries 0)
    (sized : c.ring.Sized setup.kind) (clears : s.perform setup name action =
      s.call (.name name) (c.ring.clear setup.kind) fun _ => action.rebuilt) :
    ClearsUnseen setup s name c action := by
  intro drops
  rw [holds.unread] at drops
  rw [clears, holds.clear_eq drops]
  refine ⟨.empty c.ring.capacity, Ring.create_eq sized, rfl, ?_, ?_⟩
  · simp [Session.call, Call.returned]
  · exact setRing_indistinguishable setup (s.after s.channels _) (.name name) (.refl _)

end Rebuilding

/-! ## Main result -/

/-- Wherever the cursors of a queue stand, it is enlarged and cleared unseen: whatever steps come
later, with any queues, threads and constructors, they go as with a new queue that was filled by
pushes. -/
theorem rebuilds_unseen {setup : Setup α} {s : Session α} {pending : List (Pending α)}
    (reachable : Reachable setup s pending) {name : String} {c : Channel α} {h : Handle}
    (found : s.find? (.name name) = some (c, h)) :
    (∀ (capacity : Nat) (action : Action α), (Exclusive.reserve capacity).IsAskedBy action c h →
      GrowsUnseen setup s name c action capacity) ∧
    ∀ action : Action α, Exclusive.clear.IsAskedBy action c h →
      ClearsUnseen setup s name c action := by
  have sound := reachable.between.sound
  obtain ⟨⟨before, after, place⟩, limit, entries, holds⟩ := reachable.located found
  obtain rfl := holds.capacity
  have sized := reachable.sized.mem place.mem
  constructor
  · intro capacity action asked
    rw [asked.alone setup sound found rfl ⟨_, rfl⟩] at holds
    exact place.growsUnseen holds sized (asked.reserves found)
  · intro action asked
    rw [asked.alone setup sound found rfl ⟨_, rfl⟩] at holds
    exact clearsUnseen holds sized (asked.clears found)

/-- The two entries of a full queue stand around the end of its slots. -/
theorem rebuilds_unseen_around_the_end :
    let setup : Setup Nat := ⟨.plain, none, .endless⟩
    let steps : List (Step Nat) :=
      [.create "q" (.queue (.ofCapacity 2)), .act "q" (.push (.asked .reject) 1),
        .act "q" (.push (.asked .block) 2),
        .act "q" .popFront, .act "q" (.push (.asked .overwrite) 3)]
    let s := (Step.runAll setup steps .empty).1
    Reachable setup s [] ∧ ∃ c h, s.find? (.name "q") = some (c, h) ∧ c.ring.freed = 1 ∧
      c.ring.unread = [2, 3] ∧
      (Exclusive.reserve 3).IsAskedBy (.reserve 3) c h ∧ Exclusive.clear.IsAskedBy .clear c h ∧
      GrowsUnseen setup s "q" c (.reserve 3) 3 ∧ ClearsUnseen setup s "q" c .clear := by
  intro setup steps s
  have sequential : Step.AreSequential steps := ⟨trivial, rfl, rfl, rfl, rfl, trivial⟩
  have finished : (Step.runAll setup steps .empty).2.any Answer.isWaiting = false := by
    decide +kernel
  have reachable : Reachable setup s [] := Reachable.start.runAll sequential finished
  obtain ⟨⟨c, h⟩, found⟩ : ∃ reached, s.find? (.name "q") = some reached := ⟨_, rfl⟩
  obtain ⟨reserves, clears⟩ := rebuilds_unseen reachable found
  have asks : (Exclusive.reserve 3).IsAskedBy (.reserve 3) c h ∧ Exclusive.clear.IsAskedBy
    .clear c h := by
    cases found
    exact ⟨⟨rfl, rfl, .inl rfl⟩, ⟨rfl, rfl, .inl rfl⟩⟩
  refine ⟨reachable, c, h, found, ?_, ?_, asks.1, asks.2, reserves 3 _ asks.1, clears _ asks.2⟩
  · cases found
    decide +kernel
  · cases found
    decide +kernel

end RingQueue.Session
