import RingQueue.Proofs.Ring.Alike
import RingQueue.Proofs.Ring.Conservation

/-!
Rings that are rebuilt.

Wherever the entries of a ring stood, and whether or not they went around its end, a ring that has
grown is alike to a new ring of the larger capacity into which they were pushed one after the other
(`Ring.Holds.reserve_alike`). A ring that has been cleared is a new ring.
-/
namespace RingQueue

variable {α : Type}

/-- None of the entries breaks off while it is dropped. -/
def EntryKind.CanDrop (k : EntryKind α) (entries : List α) : Prop :=
  ∀ fails, k.dropFails = some fails → ∀ a ∈ entries, fails a = false

theorem EntryKind.CanDrop.dropAll {k : EntryKind α} {entries : Batch α}
    (drops : k.CanDrop entries.toList) :
    k.dropAll entries = ⟨entries, none⟩ := by
  unfold EntryKind.dropAll
  cases some_fail : k.dropFails with
  | none => rfl
  | some fails =>
    have sound : entries.toList.findIdx? fails = none := by
      rw [List.findIdx?_eq_none_iff]
      exact drops fails some_fail
    simp only [sound]

namespace Ring

/-- Pushes entries one after the other; a full ring makes the caller wait. -/
def pushAll : List α → Ring α → Call α Unit
  | [], r => .returned () r []
  | a :: rest, r => (r.pushBack a).andThen fun _ r => pushAll rest r

/-- A push that waits for room moves nothing but the end of the queue. -/
theorem pushBack_freed (r : Ring α) (a : α) : (r.pushBack a).ring.freed = r.freed := by
  have published (s : Ring α) : (s.settle none (.ok a)).ring.freed = s.freed := by
    simp only [settle, publish]
    split
    · rename_i stored
      split at stored
      · cases stored
        rfl
      · cases stored
    · rfl
  simp only [pushBack, push, emplace, request, tryAdmission]
  split
  · rename_i admitted
    split at admitted
    · cases admitted
      exact published _
    · cases admitted
  · rfl

namespace Holds

variable {r : Ring α} {c reserved : Nat} {a : α} {entries : List α}

theorem pushBack_room (h : r.Holds c entries reserved) (room : entries.length + reserved < c)
    (a : α) :
    ∃ r', r.pushBack a = .returned () r' [] ∧ r'.Holds c (entries ++ [a]) reserved ∧
      r'.freed = r.freed := by
  obtain ⟨admitted, granted, holds⟩ := h.request_room room .block
  obtain ⟨r', settled, stored⟩ := holds.settle_made none a
  have pushed : r.pushBack a = .returned () r' [] := by
    simp only [pushBack, push, emplace, granted, Call.andThen_returned, settled]
    rfl
  have freed := r.pushBack_freed a
  rw [pushed] at freed
  exact ⟨r', pushed, stored, freed⟩

/-- Entries for which there is room are pushed without waiting. -/
theorem pushAll {others : List α} (h : r.Holds c entries reserved)
    (room : entries.length + others.length + reserved ≤ c) :
    ∃ r', Ring.pushAll others r = .returned () r' [] ∧ r'.Holds c (entries ++ others) reserved ∧
      r'.freed = r.freed := by
  induction others generalizing r entries with
  | nil => exact ⟨r, rfl, by rwa [List.append_nil], rfl⟩
  | cons a rest ih =>
    simp only [List.length_cons] at room
    obtain ⟨pushed, one, holds, freed⟩ := h.pushBack_room (by omega) a
    obtain ⟨r', others, all, same⟩ :=
      ih holds (by simp only [List.length_append, List.length_singleton]; omega)
    refine ⟨r', ?_, by rwa [← List.append_cons] at all, same.trans freed⟩
    rw [Ring.pushAll, one, Call.andThen_returned, others]
    rfl

/-- A ring that has grown is alike to a new one that got the entries from pushes. -/
theorem reserve_alike (h : r.Holds c entries 0) (k : EntryKind α) {capacity : Nat}
    (larger : c < capacity) (bounded : capacity ≤ maxCapacity) (block : k.HasBlock capacity) :
    ∃ grown fresh filled,
      r.reserve k capacity = .returned () grown (k.allocate capacity ++ k.free c ++
        [.reported (.ringGrown c capacity entries.length)]) ∧
      (create k capacity).result = .ok fresh ∧ Ring.pushAll entries fresh = .returned () filled [] ∧
      grown.Alike filled := by
  have positive : 0 < capacity := by omega
  have accepted := (k.checkSlots_eq_ok_iff capacity).mpr ⟨positive, bounded, block⟩
  have fits := h.fits
  have count := h.unreadCount
  have room : ([] : List α).length + entries.length + 0 ≤ capacity := by
    simp only [List.length_nil]
    omega
  obtain ⟨filled, pushed, filledHolds, begins⟩ := (holds_empty capacity).pushAll room
  have grownHolds := holds_ofBatch (c := capacity) h.unreadBatch_full
    (by simp only [unreadBatch]; omega)
  rw [toList_unreadBatch, h.unread] at grownHolds
  refine ⟨ofBatch capacity r.unreadBatch, .empty capacity, filled, ?_, create_eq accepted, pushed,
    grownHolds.alike filledHolds begins positive⟩
  rw [reserve, h.capacity, if_neg (by omega), accepted, count]

/-- A capacity that is not larger changes nothing. -/
theorem reserve_kept (h : r.Holds c entries 0) (k : EntryKind α) {capacity : Nat}
    (smaller : capacity ≤ c) :
    r.reserve k capacity = .returned () r [] := by
  rw [reserve, h.capacity, if_pos smaller]

/-- A capacity that no ring can have changes nothing either. -/
theorem reserve_refused (h : r.Holds c entries 0) {k : EntryKind α} {capacity : Nat} {fault : Fault}
    (larger : c < capacity) (refused : k.checkSlots capacity = .error fault) :
    r.reserve k capacity = ⟨.aborted fault, r, []⟩ := by
  rw [reserve, h.capacity, if_neg (Nat.not_le_of_lt larger), refused]

/-- A ring whose entries can be dropped is cleared, and is a new one then. -/
theorem clear_eq (h : r.Holds c entries 0) {k : EntryKind α} (drops : k.CanDrop entries) :
    r.clear k = .returned () (.empty c)
      ([.reported (.clearing c entries.length), .dropped r.unreadBatch] ++
      k.allocate c ++ k.free c) := by
  rw [← h.unread] at drops
  have dropped : k.dropAll r.unreadBatch = ⟨r.unreadBatch, none⟩ := EntryKind.CanDrop.dropAll drops
  simp only [clear, dropped, h.capacity, h.unreadCount]

end Holds

end Ring

end RingQueue
