import RingQueue.Proofs.Ring.Contents

/-!
What new rings contain: nothing, or clones of one entry.
-/
namespace RingQueue

variable {α : Type}

namespace Batch

theorem full_ofArray (as : Array α) : (ofArray as).Full := by
  intro i hi
  simp only [ofArray] at hi ⊢
  rw [Array.getElem?_eq_getElem hi]
  rfl

theorem full_replicate (n : Nat) (a : α) : (replicate n a).Full := by
  intro i _
  rfl

end Batch

/-! ## Clones -/

/-- Cloning that does not fail makes one clone of each entry. -/
theorem Cloning.cloneFrom_all (clone : Nat → α → Except Fault α) (done : Array α)
    (entries : List α) (sound : (cloneFrom clone done entries).fault = none) :
    ∃ as : Array α, (cloneFrom clone done entries).made = .ofArray as ∧
      as.size = done.size + entries.length := by
  induction entries generalizing done with
  | nil => exact ⟨done, rfl, rfl⟩
  | cons a rest ih =>
    cases copied : clone done.size a with
    | error fault =>
      simp only [cloneFrom, copied] at sound
      cases sound
    | ok copy =>
      simp only [cloneFrom, copied] at sound ⊢
      obtain ⟨as, made, size⟩ := ih (done.push copy) sound
      refine ⟨as, made, ?_⟩
      rw [size, Array.size_push, List.length_cons]
      omega

theorem Cloning.cloneAll_all (c : Cloning α) {entries : Batch α} (full : entries.Full)
    (sound : (c.cloneAll entries).fault = none) :
    (c.cloneAll entries).made.Full ∧ (c.cloneAll entries).made.count = entries.count := by
  cases c with
  | verbatim => exact ⟨full, rfl⟩
  | calling clone =>
    obtain ⟨as, made, size⟩ := cloneFrom_all clone #[] entries.toList sound
    simp only [cloneAll, made]
    refine ⟨Batch.full_ofArray as, ?_⟩
    simpa [Batch.ofArray, Batch.length_toList full] using size

/-- Whatever has been cloned is a clone of one of the entries. -/
theorem Cloning.mem_cloneFrom {clone : Nat → α → Except Fault α} {done : Array α}
    {entries : List α} {b : α} (member : b ∈ (cloneFrom clone done entries).made.toList) :
    b ∈ done.toList ∨ ∃ a ∈ entries, ∃ before, clone before a = .ok b := by
  induction entries generalizing done with
  | nil => exact .inl (by simpa [cloneFrom] using member)
  | cons a rest ih =>
    cases copied : clone done.size a with
    | error fault =>
      simp only [cloneFrom, copied] at member
      exact .inl (by simpa using member)
    | ok copy =>
      simp only [cloneFrom, copied] at member
      rcases ih member with old | ⟨original, later, before, made⟩
      · rw [Array.toList_push, List.mem_append, List.mem_singleton] at old
        rcases old with old | rfl
        · exact .inl old
        · exact .inr ⟨a, List.mem_cons_self, done.size, copied⟩
      · exact .inr ⟨original, List.mem_cons_of_mem a later, before, made⟩

theorem Cloning.mem_cloneAll {c : Cloning α} {entries : Batch α} {b : α}
    (member : b ∈ (c.cloneAll entries).made.toList) :
    ∃ a ∈ entries.toList, ∃ before, c.copy before a = .ok b := by
  cases c with
  | verbatim => exact ⟨b, member, 0, rfl⟩
  | calling clone =>
    rcases mem_cloneFrom member with ⟨⟨⟩⟩ | made
    exact made

/-! ## New rings -/

namespace Ring

theorem create_eq {k : EntryKind α} {c : Nat} (accepted : k.checkSlots c = .ok ()) :
    (create k c).result = .ok (.empty c) := by
  simp only [create, accepted]

/-- The entries of a filled ring: the clones, and in the last place the entry itself. -/
def fillBatch (c : Nat) (clones : Batch α) (a : α) : Batch α :=
  ⟨c, fun i => if i + 1 = c then some a else clones.entry i⟩

theorem fillBatch_full {c : Nat} {clones : Batch α} (full : clones.Full)
    (count : clones.count = c - 1) (a : α) : (fillBatch c clones a).Full := by
  intro i hi
  simp only [fillBatch] at hi ⊢
  split
  · rfl
  · exact full i (by omega)

theorem toList_fillBatch {c : Nat} {clones : Batch α} (positive : 0 < c) (full : clones.Full)
    (count : clones.count = c - 1) (a : α) :
    (fillBatch c clones a).toList = clones.toList ++ [a] := by
  have length := Batch.length_toList full
  apply Batch.toList_eq_of_getElem?
  · simp only [fillBatch, List.length_append, List.length_singleton]
    omega
  · intro i hi
    simp only [fillBatch] at hi ⊢
    -- The last place has the entry itself, all others have clones.
    by_cases last : i + 1 = c
    · rw [if_pos last, List.getElem?_append_right (by omega), length,
        show i - clones.count = 0 by omega]
      rfl
    · rw [if_neg last, List.getElem?_append_left (by omega),
        Batch.getElem?_toList full (by omega)]

theorem filled_eq {k : EntryKind α} {c : Nat} (accepted : k.checkSlots c = .ok ()) (a : α)
    (sound : (k.cloning.cloneAll (.replicate (c - 1) a)).fault = none) :
    (filled k c a).result =
      .ok (.ofBatch c (fillBatch c (k.cloning.cloneAll (.replicate (c - 1) a)).made a)) := by
  simp only [filled, accepted, sound]
  rfl

end Ring

end RingQueue
