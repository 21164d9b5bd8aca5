import RingQueue.Proofs.Ring.Conservation

/-!
Copies of rings.

The entries are cloned in their order, and the copy is at rest with the clones from its first slot
on, wherever the originals stand. When a clone fails, the clones before it are dropped in their
order. In both cases the ring that is copied stays as it was, with its front where it was pinned. A
new ring that is to be full of clones drops none of them when one fails.
-/
namespace RingQueue

variable {α : Type}

/-! ## Clones -/

/-- Entries are cloned one after the other as long as no clone fails. -/
theorem Cloning.cloneFrom_append (clone : Nat → α → Except Fault α) {entries copies : List α}
    {done : Array α} (cloned : entries.mapIdx (fun i a => clone (done.size + i) a) = copies.map .ok)
    (rest : List α) :
    cloneFrom clone done (entries ++ rest) = cloneFrom clone (done ++ copies.toArray) rest := by
  induction entries generalizing done copies with
  | nil =>
    obtain rfl := List.map_eq_nil_iff.mp cloned.symm
    simp
  | cons a entries ih =>
    cases copies with
    | nil => simp at cloned
    | cons copy copies =>
      rw [List.mapIdx_cons, List.map_cons, List.cons.injEq] at cloned
      obtain ⟨first, others⟩ := cloned
      have later : entries.mapIdx (fun i a => clone ((done.push copy).size + i) a) =
        copies.map .ok := by
        rw [← others]
        congr
        funext i
        rw [Array.size_push, Nat.add_assoc, Nat.add_comm 1 i]
      rw [Nat.add_zero] at first
      rw [List.cons_append, cloneFrom, first]
      simp [ih later]

theorem Cloning.cloneFrom_start (clone : Nat → α → Except Fault α) {entries copies : List α}
    (cloned : entries.mapIdx (calling clone).copy = copies.map .ok) (rest : List α) :
    cloneFrom clone #[] (entries ++ rest) = cloneFrom clone copies.toArray rest := by
  have counted : (fun i a => clone ((#[] : Array α).size + i) a) = (calling clone).copy := by
    funext i a
    simp [copy]
  rw [cloneFrom_append clone (counted ▸ cloned) rest, Array.empty_append]

/-- When all clones succeed, they are what has been made. -/
theorem Cloning.cloneAll_made (cloning : Cloning α) {entries : Batch α} {copies : List α}
    (cloned : entries.toList.mapIdx cloning.copy = copies.map .ok) :
    (cloning.cloneAll entries).fault = none ∧ (cloning.cloneAll entries).made.toList = copies := by
  cases cloning with
  | verbatim =>
    have same : entries.toList.map Except.ok = (copies.map Except.ok : List (Except Fault α)) := by
      rw [← cloned]
      exact List.ext_getElem (by simp) (by simp [copy])
    exact ⟨rfl, List.map_injective_iff.mpr (fun _ _ same => Except.ok.inj same) same⟩
  | calling clone =>
    have all := cloneFrom_start clone cloned []
    rw [List.append_nil] at all
    simp [cloneAll, all, cloneFrom]

/-- The first clone that fails ends the cloning, and those before it have been made. -/
theorem Cloning.cloneAll_failed (cloning : Cloning α) {entries : Batch α}
    {before rest copies : List α} {a : α} {fault : Fault}
    (split : entries.toList = before ++ a :: rest)
    (cloned : before.mapIdx cloning.copy = copies.map .ok)
    (fails : cloning.copy before.length a = .error fault) : (cloning.cloneAll entries).fault =
    some fault ∧ (cloning.cloneAll entries).made.toList = copies := by
  cases cloning with
  | verbatim => cases fails
  | calling clone =>
    have length : copies.length = before.length := by simpa using (congrArg List.length cloned).symm
    have earlier := cloneFrom_start clone cloned (a :: rest)
    have stops : clone copies.length a = .error fault := by
      rw [length]
      exact fails
    simp [cloneAll, split, earlier, cloneFrom, stops]

/-! ## Full rings -/

/-- Of the clones of `a` that fill a ring of `capacity` slots the first ones are `copies`, and the
next one breaks off. -/
structure EntryKind.FailsToFill (k : EntryKind α) (capacity : Nat) (a : α) (copies : List α)
    (fault : Fault) :
    Prop where
  sized : capacity ≤ maxCapacity
  block : k.HasBlock capacity
  -- The last slot is for `a` itself.
  inside : copies.length + 1 < capacity
  cloned : (List.replicate copies.length a).mapIdx k.cloning.copy = copies.map .ok
  fails : k.cloning.copy copies.length a = .error fault

/-- A ring that cannot be filled gives its block back and drops the entry, but none of the clones.
-/
theorem Ring.filled_failed {k : EntryKind α} {capacity : Nat} {a : α} {copies : List α}
    {fault : Fault} (failing : k.FailsToFill capacity a copies fault) :
    ∃ batch : Batch α, batch.toList = copies ∧
      Ring.filled k capacity a = ⟨.error fault,
        k.allocate capacity ++ [.cloned batch] ++ k.free capacity ++ [.dropped (.single a)]⟩ := by
  obtain ⟨sized, block, inside, cloned, fails⟩ := failing
  have accepted := (k.checkSlots_eq_ok_iff capacity).mpr ⟨by omega, sized, block⟩
  have split : (Batch.replicate (capacity - 1) a).toList =
      List.replicate copies.length a ++ a :: List.replicate (capacity - 2 - copies.length) a := by
    rw [Batch.toList_replicate, ← List.replicate_succ, List.replicate_append_replicate]
    congr 1
    omega
  obtain ⟨failed, made⟩ := k.cloning.cloneAll_failed split cloned (by rwa [List.length_replicate])
  exact ⟨_, made, by simp only [Ring.filled, accepted, failed]⟩

/-! ## Rings -/

namespace Ring.Holds

variable {r : Ring α} {c reserved : Nat} {entries copies : List α}

theorem duplicate_made (h : r.Holds c entries reserved) (k : EntryKind α)
    (cloned : entries.mapIdx k.cloning.copy = copies.map .ok) :
    ∃ (batch : Batch α) (copy : Ring α), batch.toList = copies ∧
      r.duplicate k =
        .returned copy r ([.cloned batch] ++ k.allocate c ++ [.reported (.ringCreated c)]) ∧
      copy.Holds c copies 0 := by
  have cloned : r.unreadBatch.toList.mapIdx k.cloning.copy = copies.map .ok := by
    rwa [toList_unreadBatch, h.unread]
  obtain ⟨sound, made⟩ := k.cloning.cloneAll_made cloned
  obtain ⟨full, count⟩ := k.cloning.cloneAll_all h.unreadBatch_full sound
  have holds := holds_ofBatch full (count ▸ h.unreadBatch_fits)
  rw [made] at holds
  exact ⟨_, _, made, by rw [h.duplicate_eq k]; simp only [sound], holds⟩

theorem duplicate_failed (h : r.Holds c entries reserved) (k : EntryKind α)
    {before rest : List α} {a : α} {fault : Fault} (split : entries = before ++ a :: rest)
    (cloned : before.mapIdx k.cloning.copy = copies.map .ok)
    (fails : k.cloning.copy before.length a = .error fault) :
    ∃ batch : Batch α, batch.toList = copies ∧
      r.duplicate k = ⟨.aborted fault, r, [.cloned batch, .dropped batch]⟩ := by
  have split : r.unreadBatch.toList = before ++ a :: rest := h.unread.trans split
  obtain ⟨failed, made⟩ := k.cloning.cloneAll_failed split cloned fails
  exact ⟨_, made, by rw [h.duplicate_eq k]; simp only [failed]⟩

end Ring.Holds

end RingQueue
