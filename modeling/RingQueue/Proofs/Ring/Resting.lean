import RingQueue.Proofs.Ring.Conservation
import RingQueue.Proofs.Ring.Refinement
import RingQueue.Proofs.Ring.Storage

/-!
Rings at rest in machine words, and the operations that take a ring as a whole.

`WordRing.Rests` says that the words stand for a ring in numbers that is at rest and in which a
position is left that can be claimed. The unread entries are the same in words and in numbers up to
their count (`Batch.Agrees`), and that is as far as any operation looks.
-/
namespace RingQueue

variable {α β : Type}

/-! ## Batches -/

/-- The batches are of the same length and have the same entries up to it. -/
structure Batch.Agrees (b b' : Batch α) : Prop where
  count : b'.count = b.count
  entry : ∀ i, i < b.count → b'.entry i = b.entry i

namespace Batch.Agrees

variable {b b' : Batch α}

theorem toList (h : b.Agrees b') : b'.toList = b.toList := by
  rw [Batch.toList, Batch.toList, h.count]
  apply List.filterMap_congr
  intro i hi
  exact h.entry i (List.mem_range.mp hi)

theorem dropAll_fault (h : b.Agrees b') (k : EntryKind α) : (k.dropAll b').fault =
    (k.dropAll b).fault := by
  simp only [EntryKind.dropAll, h.toList]
  split
  · rfl
  · split <;> rfl

theorem cloneAll (h : b.Agrees b') (cloning : Cloning α) :
    (cloning.cloneAll b').fault = (cloning.cloneAll b).fault ∧
      (cloning.cloneAll b).made.Agrees (cloning.cloneAll b').made := by
  cases cloning with
  | verbatim => exact ⟨rfl, h⟩
  | calling clone =>
    rw [Cloning.cloneAll, Cloning.cloneAll, h.toList]
    exact ⟨rfl, rfl, fun _ _ => rfl⟩

/-- A ring does not look behind the end of a batch. -/
theorem ofBatch (h : b.Agrees b') (capacity : UInt64) :
    WordRing.ofBatch capacity b' = WordRing.ofBatch capacity b := by
  have slots : (fun slot => if slot < b'.count then b'.entry slot else none) =
      fun slot => if slot < b.count then b.entry slot else none := by
    funext slot
    rw [h.count]
    exact ite_congr rfl (h.entry slot) fun _ => rfl
  rw [WordRing.ofBatch, WordRing.ofBatch, slots, h.count]

end Batch.Agrees

/-! ## Rings at rest -/

namespace WordRing

/-- The words stand for a ring at rest, of a capacity that rings may have, in which a position is
left that can be claimed. -/
structure Rests (w : WordRing α) (c : Nat) (entries : List α) (reserved : Nat) : Prop where
  holds : w.toRing.Holds c entries reserved
  positive : 0 < c
  bounded : c ≤ maxCapacity
  small : w.write.toNat < 2 ^ 64 - 1

namespace Rests

variable {w : WordRing α} {c reserved : Nat} {a : α} {entries : List α}

theorem some_slot (h : w.Rests c entries reserved) : w.capacity ≠ 0 := by
  have capacity : w.capacity.toNat = c := h.holds.capacity
  have positive := h.positive
  rintro zero
  rw [zero, UInt64.toNat_zero] at capacity
  omega

theorem capacity_le (h : w.Rests c entries reserved) : w.capacity.toNat ≤ maxCapacity := by
  have capacity : w.capacity.toNat = c := h.holds.capacity
  rw [capacity]
  exact h.bounded

theorem size_le (h : w.Rests c entries reserved) : w.size.toNat ≤ maxCapacity := by
  have size : w.size.toNat = entries.length + reserved := h.holds.size
  exact size ▸ Nat.le_trans h.holds.fits h.bounded

theorem read_add (h : w.Rests c entries reserved) :
    w.read.toNat + entries.length = w.write.toNat ∧ w.visible = w.write ∧ w.freed = w.read := by
  obtain ⟨-, freed⟩ := toRing_read h.holds
  have visible : w.visible.toNat = w.freed.toNat + entries.length := h.holds.visible
  have write : w.write.toNat = w.visible.toNat := h.holds.write
  exact ⟨by omega, UInt64.toNat_inj.mp write.symm, UInt64.toNat_inj.mp freed.symm⟩

/-- The position to be read is no mark. -/
theorem read_small (h : w.Rests c entries reserved) : w.read.toNat < 2 ^ 64 - 1 := by
  obtain ⟨last, -⟩ := h.read_add
  have small := h.small
  omega

theorem read_le (h : w.Rests c entries reserved) : w.read ≤ w.visible := by
  obtain ⟨last, visible, -⟩ := h.read_add
  rw [visible, UInt64.le_iff_toNat_le]
  omega

theorem length_live (h : w.Rests c entries reserved) : w.live.length = entries.length := by
  obtain ⟨last, visible, -⟩ := h.read_add
  simp only [Span.length, live, visible]
  omega

/-- The front is pinned at the position to be read. -/
theorem pin_eq (h : w.Rests c entries reserved) :
    w.pin = some (w.read, { w with read := pinMark }) :=
  if_neg (toRing_read h.holds).1

/-- A ring that was pinned meanwhile is as before. -/
theorem duplicate_failed (h : w.Rests c entries reserved) {k : EntryKind α} {fault : Fault}
    (failed : (k.cloning.cloneAll w.unreadBatch).fault = some fault) :
    w.duplicate k = (.aborted fault, w) := by
  have failed' : (k.cloning.cloneAll ⟨(w.visible - w.read).toNat, fun i =>
      ({ w with read := pinMark } : WordRing α).entry (w.read + UInt64.ofNat i)⟩).fault =
        some fault := failed
  simp only [duplicate, h.pin_eq, failed']
  rfl

theorem duplicate_made (h : w.Rests c entries reserved) {k : EntryKind α}
    (sound : (k.cloning.cloneAll w.unreadBatch).fault = none) :
    w.duplicate k = (.returned (ofBatch w.capacity (k.cloning.cloneAll w.unreadBatch).made),
      w) := by
  have sound' : (k.cloning.cloneAll ⟨(w.visible - w.read).toNat, fun i =>
      ({ w with read := pinMark } : WordRing α).entry (w.read + UInt64.ofNat i)⟩).fault =
        none := sound
  simp only [duplicate, h.pin_eq, sound']
  rfl

/-! ## Words and numbers -/

theorem entry_read (h : w.Rests c (a :: entries) reserved) : w.entry w.read = some a := by
  obtain ⟨oldest, -⟩ := h.holds.serves.oldest
  obtain ⟨-, freed⟩ := toRing_read h.holds
  have here := entry_toRing w w.read
  rw [freed] at here
  exact here.symm.trans oldest

theorem peek_toRing (h : w.Rests c entries reserved) (look : α → Except Fault β) :
    Agrees (w.peek look) (w.toRing.peek look) := by
  obtain ⟨last, visible, -⟩ := h.read_add
  rw [h.holds.serves.peek look]
  simp only [peek, h.pin_eq]
  cases entries with
  | nil =>
    have nothing : w.visible ≤ w.read := by
      rw [visible, UInt64.le_iff_toNat_le]
      exact Nat.le_of_eq last.symm
    rw [if_pos nothing]
    exact ⟨rfl, rfl⟩
  | cons a rest =>
    have something : ¬ w.visible ≤ w.read := by
      rw [visible, UInt64.le_iff_toNat_le, ← last, List.length_cons]
      omega
    have oldest : ({ w with read := pinMark } : WordRing α).entry w.read = some a := h.entry_read
    rw [if_neg something, oldest]
    dsimp only [List.head?_cons]
    cases look a <;> exact ⟨rfl, rfl⟩

theorem drain_toRing (h : w.Rests c entries reserved) (limit : Option Nat) :
    Agrees (w.drain limit) (w.toRing.drain limit) := by
  simp only [drain, Ring.drain, unreadCount_toRing h.holds]
  exact popMany_toRing _ [] h.holds h.small

theorem unreadBatch_toRing (h : w.Rests c entries reserved) :
    w.toRing.unreadBatch.Agrees w.unreadBatch := by
  obtain ⟨-, freed⟩ := toRing_read h.holds
  have count := unreadCount_toRing h.holds
  refine ⟨count, ?_⟩
  intro i hi
  have inside : i < w.live.length := by
    rw [h.length_live, ← h.holds.unreadCount]
    exact hi
  have place := Span.toNat_start_add inside
  change w.entry (w.live.start + UInt64.ofNat i) = w.toRing.entry (w.toRing.front + i)
  rw [← entry_toRing, place, h.holds.front]
  exact congrArg (fun first => w.toRing.entry (first + i)) freed

theorem toRing_built {capacity : UInt64} (bounded : capacity.toNat ≤ maxCapacity) {b b' : Batch α}
    (agrees : b.Agrees b') (fits : b.count ≤ capacity.toNat) :
    (ofBatch capacity b').toRing = Ring.ofBatch capacity.toNat b := by
  rw [agrees.ofBatch, ← toRing_ofBatch bounded fits, UInt64.ofNat_toNat]

theorem reserve_toRing (h : w.Rests c entries reserved) (k : EntryKind α) (capacity : UInt64) :
    Agrees (w.reserve k capacity) (w.toRing.reserve k capacity.toNat) := by
  have smaller : (capacity ≤ w.capacity) = (capacity.toNat ≤ w.toRing.capacity) := by
    rw [UInt64.le_iff_toNat_le]
    rfl
  simp only [reserve, Ring.reserve, smaller]
  split
  · exact ⟨rfl, rfl⟩
  · rename_i larger
    cases accepted : k.checkSlots capacity.toNat with
    | error fault => exact ⟨rfl, rfl⟩
    | ok _ =>
      have bounds := (k.checkSlots_eq_ok_iff capacity.toNat).mp accepted
      have fits := h.holds.unreadBatch_fits
      rw [h.holds.capacity] at larger
      exact ⟨rfl, toRing_built bounds.2.1 h.unreadBatch_toRing (by omega)⟩

theorem toRing_empty {capacity : UInt64} (bounded : capacity.toNat ≤ maxCapacity) :
    (empty capacity : WordRing α).toRing = .empty capacity.toNat :=
  toRing_built bounded ⟨rfl, fun _ _ => rfl⟩ (Nat.zero_le _)

theorem clear_toRing (h : w.Rests c entries reserved) (k : EntryKind α) :
    Agrees (w.clear k) (w.toRing.clear k) := by
  simp only [clear, Ring.clear, h.unreadBatch_toRing.dropAll_fault]
  cases (k.dropAll w.toRing.unreadBatch).fault with
  | some fault => exact ⟨rfl, rfl⟩
  | none => exact ⟨rfl, toRing_empty h.capacity_le⟩

theorem release_toRing (h : w.Rests c entries reserved) (k : EntryKind α) :
    w.release k = (w.toRing.release k).1 := h.unreadBatch_toRing.dropAll_fault k

theorem duplicate_toRing (h : w.Rests c entries reserved) (k : EntryKind α) :
    (w.duplicate k).1.map toRing = (w.toRing.duplicate k).outcome ∧
      (w.duplicate k).2.toRing = (w.toRing.duplicate k).ring := by
  obtain ⟨faults, made⟩ := h.unreadBatch_toRing.cloneAll k.cloning
  have capacity : w.capacity.toNat = c := h.holds.capacity
  rw [h.holds.duplicate_eq k]
  dsimp only
  cases failed : (k.cloning.cloneAll w.toRing.unreadBatch).fault with
  | some fault =>
    rw [h.duplicate_failed (faults.trans failed)]
    exact ⟨rfl, rfl⟩
  | none =>
    obtain ⟨-, count⟩ := k.cloning.cloneAll_all h.holds.unreadBatch_full failed
    have fits := h.holds.unreadBatch_fits
    have copy := toRing_built h.capacity_le made (by omega)
    rw [h.duplicate_made (faults.trans failed)]
    exact ⟨congrArg Outcome.returned (copy.trans (by rw [capacity])), rfl⟩

end Rests

/-! ## New rings -/

theorem create_toRing (k : EntryKind α) (capacity : UInt64) :
    (create k capacity).map toRing = (Ring.create k capacity.toNat).result := by
  cases accepted : k.checkSlots capacity.toNat with
  | error fault =>
    simp only [create, accepted, Ring.create]
    rfl
  | ok _ =>
    have bounds := (k.checkSlots_eq_ok_iff capacity.toNat).mp accepted
    simp only [create, accepted, Ring.create]
    exact congrArg Except.ok (Rests.toRing_empty bounds.2.1)

theorem filled_toRing (k : EntryKind α) (capacity : UInt64) (a : α) :
    (filled k capacity a).map toRing = (Ring.filled k capacity.toNat a).result := by
  cases accepted : k.checkSlots capacity.toNat with
  | error fault =>
    simp only [filled, accepted, Ring.filled]
    rfl
  | ok _ =>
    have bounds := (k.checkSlots_eq_ok_iff capacity.toNat).mp accepted
    have last : (capacity - 1).toNat = capacity.toNat - 1 := toNat_pred bounds.1
    simp only [filled, accepted, Ring.filled, last]
    cases (k.cloning.cloneAll (.replicate (capacity.toNat - 1) a)).fault with
    | some fault => rfl
    | none =>
      exact congrArg Except.ok (Rests.toRing_built bounds.2.1 ⟨rfl, fun _ _ => rfl⟩ (Nat.le_refl _))

end WordRing

end RingQueue
