import Mathlib.Data.List.Perm.Basic
import RingQueue.Proofs.Ring.Blocks
import RingQueue.Proofs.Ring.Copies
import RingQueue.Session.Run

/-!
Queues that are to be full of clones, one of which breaks off.

There is no queue then, its block is given back, and the entry is dropped that was to be cloned. The
clones made before are in no queue and are never dropped (`failed_filling_loses_clones`).
-/
namespace RingQueue.Session

variable {α : Type}

/-- What is left when clone number `copies.length`, counted from zero, breaks off. -/
structure LosesClones (s : Session α) (a : α) (copies : List α) (fault : Fault)
    (reply : Reply α (Result α)) :
    Prop where
  broke_off : reply.result = .aborted fault
  -- No queue is made, and none is changed.
  channels : reply.session.channels = s.channels
  pushes : reply.session.pushes = s.pushes
  -- The block that was taken is given back, and no other.
  uses : Uses reply.effects 0 0
  live : reply.session.blocks.live = s.blocks.live
  cloned : Effect.clones reply.effects = copies
  dropped : Effect.drops reply.effects = [a]
  -- All that there was is dropped only if it was the first clone that broke off.
  releases_all_iff : (Effect.drops reply.effects).Perm (a :: copies) ↔ copies = []

/-! ## Main result -/

/-- Whichever clone breaks off, a constructor that fills a queue gives its block back and drops the
value it was given, and loses the clones that were made before. -/
theorem failed_filling_loses_clones (setup : Setup α) (s : Session α) (name : String)
    {capacity : Nat} {a : α} {copies : List α} {fault : Fault}
    (failing : setup.kind.FailsToFill capacity a copies fault) :
    LosesClones s a copies fault (s.create setup name (.queue (.filled capacity a))) := by
  obtain ⟨batch, made, filled⟩ := Ring.filled_failed failing
  have uses : Uses _ 0 0 := (Ring.Stillbirth.filling (k := setup.kind) capacity batch a).uses
  have reply : s.create setup name (.queue (.filled capacity a)) =
    ⟨s.after s.channels (setup.kind.allocate capacity ++
      [.cloned batch] ++ setup.kind.free capacity ++ [.dropped (.single a)]), .aborted fault,
      setup.kind.allocate capacity ++ [.cloned batch] ++ setup.kind.free capacity ++
        [.dropped (.single a)]⟩ := by
    rw [create, filled]
    rfl
  have dropped : Effect.drops (s.create setup name (.queue (.filled capacity a))).effects =
    [a] := by
    rw [reply]
    simp
  rw [reply] at dropped ⊢
  refine ⟨rfl, rfl, rfl, uses, ?_, by simp [made], dropped, ?_⟩
  · -- Whatever blocks are in use, they are so afterwards.
    have live := Blocks.afterAll_live (b := s.blocks)
      (uses.frame (Multiset.replicate s.blocks.live 0)) (by simp)
    exact live.trans (by simp)
  · rw [dropped]
    constructor
    · intro same
      exact List.eq_nil_of_length_eq_zero (by simpa using same.length_eq.symm)
    · rintro rfl
      exact .refl _

/-- Beside a queue that has a block of its own, the third of four clones breaks off, or the only
one. -/
theorem failed_filling_beside_a_queue :
    let clone (before a : Nat) : Except Fault Nat :=
      if a = 7 ∧ before < 2 then .ok (a + before + 1) else .error (.cloneFailed (toString a))
    let setup : Setup Nat := ⟨⟨8, .calling clone, none⟩, none, .endless⟩
    let s := (Step.runAll setup [.create "p" (.queue (.ofCapacity 1))] .empty).1
    s.blocks.live = 1 ∧ setup.kind.FailsToFill 5 7 [8, 9] (.cloneFailed "7") ∧
      LosesClones s 7 [8, 9] (.cloneFailed "7") (s.create setup "q" (.queue (.filled 5 7))) ∧
      setup.kind.FailsToFill 2 6 [] (.cloneFailed "6") ∧
      LosesClones s 6 [] (.cloneFailed "6") (s.create setup "q" (.queue (.filled 2 6))) := by
  intro clone setup s
  have third : setup.kind.FailsToFill 5 7 [8, 9] (.cloneFailed "7") :=
    ⟨by decide, by decide, by decide, rfl, rfl⟩
  have only : setup.kind.FailsToFill 2 6 [] (.cloneFailed "6") :=
    ⟨by decide, by decide, by decide, rfl, rfl⟩
  exact ⟨rfl, third, failed_filling_loses_clones setup s "q" third, only,
    failed_filling_loses_clones setup s "q" only⟩

/-- Of the two clones for a queue of three slots the second breaks off: the first is not dropped
with the entry that was cloned, nor when the session ends. -/
theorem failed_filling_drops_no_clone :
    let clone (before a : Nat) : Except Fault Nat := if before = 1 then
      .error (.cloneFailed "7") else .ok (a + 1)
    let setup : Setup Nat := ⟨⟨8, .calling clone, none⟩, none, .endless⟩
    let reply := (Session.empty : Session Nat).create setup "q" (.queue (.filled 3 7))
    setup.kind.FailsToFill 3 7 [8] (.cloneFailed "7") ∧ Effect.clones reply.effects = [8] ∧
      Effect.drops reply.effects = [7] ∧ Effect.drops (reply.session.close setup).effects = [] ∧
      ¬ (Effect.drops reply.effects).Perm [7, 8] := by
  intro clone setup reply
  exact ⟨⟨by decide, by decide, by decide, rfl, rfl⟩, rfl, rfl, rfl, by decide⟩

end RingQueue.Session
