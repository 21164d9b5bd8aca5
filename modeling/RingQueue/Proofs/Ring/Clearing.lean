import RingQueue.Proofs.Ring.Constructors
import RingQueue.Proofs.Ring.Copies
import RingQueue.Proofs.Ring.Rebuilding

/-!
Rings that are cleared while an entry breaks off.

The entries before it and the one itself are dropped then, and the ring stays as it was, so that
every way out of the ring leads to dropped entries first (`Ring.Holds.leadsTo`).
-/
namespace RingQueue

variable {α : Type}

/-! ## Dropping -/

/-- The entry `a` is the first that breaks off while the entries are dropped. -/
structure EntryKind.BreaksOffAt (k : EntryKind α) (entries before : List α) (a : α)
    (behind : List α) : Prop where
  split : entries = before ++ a :: behind
  sound : k.CanDrop before
  fails : ∃ fails, k.dropFails = some fails ∧ fails a = true

/-- Entries can be dropped, or there is a first one that breaks off. -/
theorem EntryKind.canDrop_or_breaksOffAt (k : EntryKind α) (entries : List α) :
    k.CanDrop entries ∨ ∃ before a behind, k.BreaksOffAt entries before a behind := by
  induction entries with
  | nil =>
    refine .inl fun fails known a member => ?_
    cases member
  | cons first rest ih =>
    by_cases here : ∃ fails, k.dropFails = some fails ∧ fails first = true
    · refine .inr ⟨[], first, rest, rfl, ?_, here⟩
      intro fails known a member
      cases member
    · have sound : ∀ fails, k.dropFails = some fails → fails first = false :=
        fun fails known => Bool.eq_false_of_not_eq_true fun fail => here ⟨fails, known, fail⟩
      rcases ih with drops | ⟨before, a, behind, split, earlier, fails⟩
      · exact .inl fun fails known => List.forall_mem_cons.mpr
          ⟨sound fails known, drops fails known⟩
      · refine .inr ⟨first :: before, a, behind, by rw [split, List.cons_append], ?_, fails⟩
        exact fun fails known => List.forall_mem_cons.mpr ⟨sound fails known, earlier fails known⟩

theorem Batch.toList_take {b : Batch α} (full : b.Full) (n : Nat) : (b.take n).toList =
    b.toList.take n := by
  have length := Batch.length_toList full
  apply Batch.toList_eq_of_getElem?
  · rw [List.length_take, length]
    rfl
  · intro i inside
    simp only [Batch.take] at inside ⊢
    rw [List.getElem?_take_of_lt (by omega), Batch.getElem?_toList full (by omega)]

/-- The entries are dropped up to the one that breaks off. -/
theorem EntryKind.BreaksOffAt.dropAll {k : EntryKind α} {entries : Batch α}
    {before behind : List α} {a : α} (breaks : k.BreaksOffAt entries.toList before a behind)
    (full : entries.Full) :
    ∃ batch : Batch α, batch.toList = before ++ [a] ∧ k.dropAll entries =
      ⟨batch, some .dropFailed⟩ := by
  obtain ⟨split, sound, fails, known, here⟩ := breaks
  have first : entries.toList.findIdx? fails = some before.length := by
    have earlier : before.findIdx? fails = none := List.findIdx?_eq_none_iff.mpr (sound fails known)
    simp [split, List.findIdx?_append, earlier, List.findIdx?_cons, here]
  refine ⟨entries.take (before.length + 1), ?_, by simp only [EntryKind.dropAll, known, first]⟩
  rw [Batch.toList_take full, split, List.take_append]
  simp

/-! ## Rings -/

namespace Ring

/-- Every way out of the ring leads to these entries before any other: pops, looks, evictions,
copies and the end of the ring. -/
structure LeadsTo (r : Ring α) (k : EntryKind α) (entries : List α) : Prop where
  first_unread : entries <+: r.unread
  shown : r.front? = entries.head?
  popped : r.popFront.outcome = .returned entries.head?
  drained : (r.drain (some entries.length)).outcome = .returned entries
  evicted : r.isFull = true → ∀ b, (r.forcePushBack b).outcome = .returned entries.head?
  copied : ∀ copies, r.unread.mapIdx k.cloning.copy = copies.map .ok →
    ∃ copy, (r.duplicate k).outcome = .returned copy ∧ copy.unread = copies
  released : Effect.drops (r.release k).2 = entries

namespace Holds

variable {r : Ring α} {c : Nat} {entries before behind : List α} {a : α} {k : EntryKind α}

/-- A clear that breaks off leaves the ring as it was. -/
theorem clear_breaksOff (h : r.Holds c entries 0) (breaks : k.BreaksOffAt entries before a behind) :
    ∃ batch : Batch α, batch.toList = before ++ [a] ∧
      r.clear k = ⟨.aborted .dropFailed, r,
        [.reported (.clearing c entries.length), .dropped batch]⟩ := by
  rw [← h.unread] at breaks
  obtain ⟨batch, dropped, dropAll⟩ := EntryKind.BreaksOffAt.dropAll breaks h.unreadBatch_full
  exact ⟨batch, dropped, by simp only [clear, dropAll, h.capacity, h.unreadCount]⟩

theorem leadsTo (h : r.Holds c entries 0) (breaks : k.BreaksOffAt entries before a behind) :
    r.LeadsTo k (before ++ [a]) := by
  obtain rfl := breaks.split
  -- The oldest entry is the first of those that are dropped.
  obtain ⟨oldest, rest, same, head⟩ : ∃ oldest rest, before ++ a :: behind = oldest :: rest ∧
      (before ++ [a]).head? = some oldest := by
    cases before with
    | nil => exact ⟨a, behind, rfl, rfl⟩
    | cons first before => exact ⟨first, before ++ a :: behind, rfl, rfl⟩
  have first : (before ++ a :: behind).head? = some oldest := by rw [same, List.head?_cons]
  refine ⟨?_, ?_, ?_, ?_, ?_, ?_, ?_⟩
  · rw [h.unread]
    exact ⟨behind, by simp⟩
  · rw [h.front?, first, head]
  · rw [same] at h
    obtain ⟨left, popped, -⟩ := h.popFront_cons
    rw [popped, head]
    rfl
  · obtain ⟨left, drained, -⟩ := h.drain (some (before ++ [a]).length)
    rw [drained]
    simp [Call.returned, List.take_append]
  · intro full b
    rw [h.isFull_iff, same] at full
    rw [same] at h
    obtain ⟨left, pushed, -⟩ := h.emplace_overwrite_full (fun _ => .ok b) full rfl
    rw [forcePushBack, push, pushed, head]
    rfl
  · intro copies cloned
    rw [h.unread] at cloned
    obtain ⟨batch, copy, -, made, copyHolds⟩ := h.duplicate_made k cloned
    exact ⟨copy, by rw [made]; rfl, copyHolds.unread⟩
  · rw [← h.unread] at breaks
    obtain ⟨batch, dropped, dropAll⟩ := EntryKind.BreaksOffAt.dropAll breaks h.unreadBatch_full
    simp [release, dropAll, dropped]

end Holds

end Ring

end RingQueue
