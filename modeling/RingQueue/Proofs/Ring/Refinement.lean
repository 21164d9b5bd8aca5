import RingQueue.Proofs.Ring.Fifo
import RingQueue.Proofs.Ring.Whole
import RingQueue.Proofs.Ring.Words

/-!
New rings, in numbers and in machine words, behave like a bounded first-in-first-out list.
-/
namespace RingQueue

variable {α : Type}

def Operation.isPush : Operation α → Bool
  | .popFront | .front | .drain _ => false
  | _ => true

/-- How many of the operations push. -/
def pushCount (operations : List (Operation α)) : Nat := operations.countP Operation.isPush

/-! ## Machine words -/

namespace WordRing

def performed (w : WordRing α) : Operation α → Outcome (Answer α) × WordRing α
  | .pushBack a => ((w.push .block a).1.map fun _ => .done, (w.push .block a).2)
  | .tryPushBack a =>
    ((w.push .reject a).1.map fun
      | .denied => .tried (.error a)
      | .stored _ => .tried (.ok ()), (w.push .reject a).2)
  | .forcePushBack a =>
    ((w.push .overwrite a).1.map fun
      | .denied => .evicted none
      | .stored evicted => .evicted evicted, (w.push .overwrite a).2)
  | .emplace policy a =>
    ((w.emplace policy fun _ => .ok a).1.map .emplaced, (w.emplace policy fun _ => .ok a).2)
  | .popFront => (w.popFront.1.map .entry, w.popFront.2)
  | .front => (.returned (.entry w.front?), w)
  | .drain limit => ((w.drain limit).1.map .entries, (w.drain limit).2)

def view (w : WordRing α) : View :=
  ⟨w.len.toNat, w.capacity.toNat, w.len = 0, w.len = w.capacity⟩

theorem view_toRing (w : WordRing α) : w.view = w.toRing.view := by
  -- Words are equal when their numbers are.
  have len := len_toRing w
  have zero : (w.len = 0) = (w.len.toNat = 0) := by
    rw [← UInt64.toNat_inj]
    rfl
  have full : (w.len = w.capacity) = (w.len.toNat = w.capacity.toNat) := by
    rw [UInt64.toNat_inj]
  simp only [view, Ring.view, Ring.isEmpty, Ring.isFull, len, zero, full]
  rfl

theorem performed_toRing {w : WordRing α} {q : Fifo α} (h : w.toRing.Represents q)
    (small : w.write.toNat < 2 ^ 64 - 1) (operation : Operation α) :
    (w.performed operation).1 = (w.toRing.performed operation).1 ∧
      (w.performed operation).2.toRing = (w.toRing.performed operation).2 := by
  -- The four pushes differ only in what they make of the outcome.
  have pushed := fun policy a => emplace_toRing policy (fun _ => .ok a) h.2 small
  cases operation with
  | pushBack a =>
    obtain ⟨outcome, ring⟩ := pushed .block a
    refine ⟨?_, ring⟩
    change (w.emplace _ _).1.map _ = ((w.toRing.emplace _ _).outcome.map _).map _
    rw [outcome, Outcome.map_map]
    rfl
  | tryPushBack a =>
    obtain ⟨outcome, ring⟩ := pushed .reject a
    refine ⟨?_, ring⟩
    change (w.emplace _ _).1.map _ = ((w.toRing.emplace _ _).outcome.map _).map _
    rw [outcome, Outcome.map_map]
    congr 1
    funext pushed
    cases pushed <;> rfl
  | forcePushBack a =>
    obtain ⟨outcome, ring⟩ := pushed .overwrite a
    refine ⟨?_, ring⟩
    change (w.emplace _ _).1.map _ = ((w.toRing.emplace _ _).outcome.map _).map _
    rw [outcome, Outcome.map_map]
    congr 1
    funext pushed
    cases pushed <;> rfl
  | emplace policy a =>
    obtain ⟨outcome, ring⟩ := pushed policy a
    exact ⟨congrArg (Outcome.map Answer.emplaced) outcome, ring⟩
  | popFront =>
    obtain ⟨outcome, ring⟩ := popFront_toRing h.2 small
    exact ⟨congrArg (Outcome.map Answer.entry) outcome, ring⟩
  | front =>
    refine ⟨?_, rfl⟩
    change Outcome.returned (Answer.entry w.front?) = .returned (.entry w.toRing.front?)
    rw [front?_toRing h.2]
  | drain limit =>
    -- A limit that is not given is the number of unread entries, which words and numbers agree on.
    obtain ⟨outcome, ring⟩ := popMany_toRing (limit.getD w.unreadCount.toNat) [] h.2 small
    have count := unreadCount_toRing h.2
    refine ⟨?_, ?_⟩
    · change (w.popMany _ _).1.map _ = (w.toRing.popMany _ _).outcome.map _
      rw [outcome, count]
    · change (w.popMany _ _).2.toRing = (w.toRing.popMany _ _).ring
      rw [ring, count]

end WordRing

/-- Only pushes claim positions, and each of them one at most. -/
theorem Ring.performed_write_le (r : Ring α) (operation : Operation α) :
    (r.performed operation).2.write ≤ r.write + pushCount [operation] := by
  cases operation with
  | pushBack a => exact emplace_write_le _ _ r
  | tryPushBack a => exact emplace_write_le _ _ r
  | forcePushBack a => exact emplace_write_le _ _ r
  | emplace policy a => exact emplace_write_le _ _ r
  | popFront =>
    simp only [performed, perform, popFront]
    split
    · rename_i a r' taken
      exact Nat.le_of_eq (takeFront_write taken)
    · exact Nat.le_refl _
  | front => exact Nat.le_refl _
  | drain limit => exact Nat.le_of_eq (popMany_write [] _ r)

/-- In words the ring records what the list records, as long as no cursor reaches the greatest word.
-/
theorem WordRing.record_eq {w : WordRing α} {q : Fifo α} (h : w.toRing.Represents q)
    (operations : List (Operation α))
    (small : w.write.toNat + pushCount operations < 2 ^ 64 - 1) :
    record performed view operations w = record Fifo.perform Fifo.view operations q := by
  apply record_eq_of_related (fun rest (w : WordRing α) q =>
    w.toRing.Represents q ∧ w.write.toNat + pushCount rest < 2 ^ 64 - 1)
  · rintro rest w q ⟨represents, -⟩
    rw [view_toRing, represents.view]
  · rintro operation rest w q ⟨represents, small⟩
    -- What the operation claims it takes from the pushes that are left.
    have split : pushCount (operation :: rest) = pushCount [operation] + pushCount rest := by
      simp only [pushCount, ← List.countP_append, List.singleton_append]
    obtain ⟨outcome, ring⟩ := performed_toRing represents (by omega) operation
    obtain ⟨outcome', represents'⟩ := represents.performed operation
    have write : ((w.performed operation).2.toRing).write ≤ w.write.toNat + pushCount
      [operation] := by
      rw [ring]
      exact w.toRing.performed_write_le operation
    refine ⟨outcome.trans outcome', ring ▸ represents', ?_⟩
    change (w.performed operation).2.write.toNat ≤ _ at write
    omega
  · exact ⟨h, small⟩

theorem WordRing.toRing_ofBatch {c : Nat} (bounded : c ≤ maxCapacity) {b : Batch α}
    (fits : b.count ≤ c) : (ofBatch (UInt64.ofNat c) b).toRing = Ring.ofBatch c b := by
  have small : c < UInt64.size := Nat.lt_of_le_of_lt bounded (by decide)
  have capacity : (UInt64.ofNat c).toNat = c := UInt64.toNat_ofNat_of_lt' small
  have count : (UInt64.ofNat b.count).toNat = b.count := UInt64.toNat_ofNat_of_lt' (by omega)
  simp only [ofBatch, toRing, Ring.ofBatch, capacity, count]
  rfl

/-! ## New rings -/

/-- The ring, in numbers and in machine words, records what the list records. In words the entries
at the start and the pushes have to be fewer than the greatest word. -/
def Ring.BehavesAs (r : Ring α) (q : Fifo α) : Prop :=
  (∀ operations,
    record Ring.performed Ring.view operations r = record Fifo.perform Fifo.view operations q) ∧
  ∃ w : WordRing α, w.toRing = r ∧
    ∀ operations, q.entries.length + pushCount operations < 2 ^ 64 - 1 →
      record WordRing.performed WordRing.view operations w =
        record Fifo.perform Fifo.view operations q

theorem Ring.ofBatch_behavesAs {c : Nat} (positive : 0 < c) (bounded : c ≤ maxCapacity)
    {b : Batch α} (full : b.Full) (fits : b.count ≤ c) :
    (Ring.ofBatch c b).BehavesAs ⟨c, b.toList⟩ := by
  have represents : (Ring.ofBatch c b).Represents ⟨c, b.toList⟩ :=
    ⟨positive, holds_ofBatch full fits⟩
  have words := WordRing.toRing_ofBatch bounded fits
  refine ⟨represents.record_eq, WordRing.ofBatch (UInt64.ofNat c) b, words, ?_⟩
  intro operations small
  have write : (WordRing.ofBatch (UInt64.ofNat c) b).toRing.write = b.toList.length := by
    rw [words, Batch.length_toList full]
    rfl
  apply WordRing.record_eq (words ▸ represents) operations
  change (WordRing.ofBatch (UInt64.ofNat c) b).toRing.write + _ < _
  rw [write]
  exact small

/-- A new ring for whose slots there is a block, empty or filled with clones of an entry, cannot be
told from a list bounded by its capacity: every sequence of operations gets the same answers and
sees the same counts. -/
theorem ring_refines_fifo (k : EntryKind α) {c : Nat} (positive : 0 < c)
    (bounded : c ≤ maxCapacity) (block : k.HasBlock c) :
    (∃ r, (Ring.create k c).result = .ok r ∧ r.BehavesAs ⟨c, []⟩) ∧
    ∀ a, (k.cloning.cloneAll (.replicate (c - 1) a)).fault = none →
      ∃ r, (Ring.filled k c a).result = .ok r ∧
        r.BehavesAs ⟨c, (k.cloning.cloneAll (.replicate (c - 1) a)).made.toList ++ [a]⟩ := by
  have accepted := (k.checkSlots_eq_ok_iff c).mpr ⟨positive, bounded, block⟩
  refine ⟨⟨Ring.empty c, Ring.create_eq accepted, ?_⟩, ?_⟩
  · exact Ring.ofBatch_behavesAs positive bounded Batch.full_empty (Nat.zero_le c)
  · intro a sound
    obtain ⟨full, count⟩ := k.cloning.cloneAll_all (Batch.full_replicate (c - 1) a) sound
    have entries := Ring.toList_fillBatch positive full count a
    refine ⟨_, Ring.filled_eq accepted a sound, ?_⟩
    rw [← entries]
    exact Ring.ofBatch_behavesAs positive bounded (Ring.fillBatch_full full count a) (Nat.le_refl c)

theorem ring_of_three_refines_fifo :
    0 < 3 ∧ 3 ≤ maxCapacity ∧ Tracked.kind.HasBlock 3 ∧
    (Tracked.kind.cloning.cloneAll (.replicate 2 ⟨7, false⟩)).fault = none ∧
    ∃ r, (Ring.filled Tracked.kind 3 ⟨7, false⟩).result = .ok r ∧
      r.BehavesAs ⟨3, [⟨7, false⟩, ⟨7, false⟩, ⟨7, false⟩]⟩ :=
  ⟨by decide, by decide, by decide, rfl,
    (ring_refines_fifo Tracked.kind (by decide) (by decide) (by decide)).2 ⟨7, false⟩ rfl⟩

end RingQueue
