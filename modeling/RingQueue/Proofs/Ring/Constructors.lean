import RingQueue.Proofs.Ring.Endings

/-!
Pushes whose constructors break off.

The room that was asked for is given back. A ring that had room is then as it was, in all its
cursors and slots; a full ring lacks the oldest entry, which made way and is dropped.
-/
namespace RingQueue.Ring

variable {α : Type} {r : Ring α}

/-- The ring with its oldest unread entry taken out: there is room for one entry, and `write` and
`visible` stand where they stood. -/
structure LacksOldest (r : Ring α) (rest : List α) (r' : Ring α) : Prop where
  unread : r'.unread = rest
  capacity : r'.capacity = r.capacity
  write : r'.write = r.write
  visible : r'.visible = r.visible
  freed : r'.freed = r.freed + 1
  read : r'.read = .next (r.freed + 1)
  size : r'.size + 1 = r.size
  len : r'.len + 1 = r.capacity
  admits : ∀ a, ∃ r'', r'.tryPushBack a = .returned (.ok ()) r'' [] ∧ r''.unread = rest ++ [a]

/-- An extraction moves `freed` by one. -/
theorem takeFront_freed {r' : Ring α} {a : α} (taken : r.takeFront = some (some a, r')) :
    r'.freed = r.freed + 1 := by
  unfold takeFront at taken
  split at taken
  · cases taken
  · split at taken
    · cases taken
    · split at taken
      · rename_i here
        simp only [Option.some.injEq, Prod.mk.injEq] at taken
        rw [← taken.2, here]
      · cases taken

namespace Holds

variable {c reserved : Nat} {entries rest : List α} {oldest : α}

theorem isFull_iff (h : r.Holds c entries reserved) : r.isFull = true ↔
    entries.length + reserved = c := by
  rw [isFull, h.len, h.capacity, decide_eq_true_eq]

theorem room_of_not_full (h : r.Holds c entries reserved) (room : r.isFull = false) :
    entries.length + reserved < c := by
  refine Nat.lt_of_le_of_ne h.fits fun full => ?_
  rw [h.isFull_iff.mpr full] at room
  cases room

/-- A push waits for room, and a forced one for an entry that can make way. -/
theorem request_waiting {policy : OverflowPolicy} (h : r.Holds c entries reserved)
    (full : entries.length + reserved = c)
    (waits : policy = .block ∨ policy = .overwrite ∧ entries = []) :
    r.request policy = ⟨.waiting, r, policy.waitingLog c⟩ := by
  rcases waits with rfl | ⟨rfl, rfl⟩
  · exact h.request_block_full full
  · simp only [List.length_nil, Nat.zero_add] at full
    subst full
    exact h.request_overwrite_unpublished

theorem emplace_broke_off_room (h : r.Holds c entries reserved)
    (room : entries.length + reserved < c) (policy : OverflowPolicy) (fault : Fault) :
    r.emplace policy (fun _ => .error fault) = ⟨.aborted fault, r, []⟩ := by
  have admitted := h.tryAdmission_eq room
  -- Lowering `size` again brings the ring back.
  cases policy <;>
  · simp only [emplace, request, evictUntilRoom, admitted]
    rfl

theorem emplace_broke_off_full (h : r.Holds c (oldest :: rest) reserved)
    (full : (oldest :: rest).length + reserved = c) :
    ∃ r', (∀ fault, r.emplace .overwrite (fun _ => .error fault) =
        ⟨.aborted fault, r', [.reported (.evicted c), .dropped (.single oldest)]⟩) ∧
      r'.Holds c rest reserved ∧ r'.freed = r.freed + 1 := by
  obtain ⟨left, taken, holds⟩ := h.takeFront_cons
  refine ⟨left, fun fault => ?_, holds, takeFront_freed taken⟩
  have denied := h.tryAdmission_full full
  rw [List.length_cons] at full
  have admitted := holds.tryAdmission_eq (by omega)
  rw [← holds.capacity]
  simp only [emplace, request, h.unreadCount, List.length_cons, evictUntilRoom, denied,
    taken, admitted]
  rfl

/-- With an entry less and `freed` moved by one, the other cursors are known. -/
theorem lacksOldest (h : r.Holds c (oldest :: rest) reserved)
    (full : (oldest :: rest).length + reserved = c) {r' : Ring α} (left : r'.Holds c rest reserved)
    (freed : r'.freed = r.freed + 1) : r.LacksOldest rest r' := by
  have visible : r'.visible = r.visible := by
    rw [left.visible, h.visible, freed, List.length_cons]
    omega
  rw [List.length_cons] at full
  refine ⟨left.unread, left.capacity.trans h.capacity.symm, ?_, visible, freed, ?_, ?_, ?_, ?_⟩
  · rw [left.write, h.write, visible]
  · rw [left.read, freed]
  · rw [left.size, h.size, List.length_cons]
    omega
  · rw [left.len, h.capacity]
    omega
  · intro a
    have room : rest.length + reserved < c := by omega
    obtain ⟨r'', stored, holds⟩ := left.emplace_room (fun _ => .ok a) room .reject rfl
    refine ⟨r'', ?_, holds.unread⟩
    rw [tryPushBack, push, stored]
    rfl

end Holds

end RingQueue.Ring
