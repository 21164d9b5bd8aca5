import RingQueue.Proofs.Ring.Contents

/-!
The front of a ring.

Three ways lead to the oldest unread entry: an extraction, a look while the front is pinned, and a
look of a caller whom nobody can disturb. Where a ring serves its front, they lead to the same
entry, or there is none for all of them; and a look, however it ends, leaves every cursor and slot
as it was (`Ring.Serves.agrees`).
-/
namespace RingQueue.Ring

variable {α β : Type} {r : Ring α} {entries : List α}

/-- The three ways in which a look at the oldest entry ends, all of them with the ring as it was;
`log` is what is done for a result. -/
inductive LookEnds (r : Ring α) (look : α → Except Fault β) (log : β → List (Effect α)) :
    Option α → Call α (Option β) → Prop where
  | nothing : LookEnds r look log none (.returned none r [])
  | returned {a : α} {b : β} : look a = .ok b → LookEnds r look log (some a)
      (.returned (some b) r (log b))
  | brokeOff {a : α} {fault : Fault} : look a = .error fault → LookEnds r look log (some a)
      ⟨.aborted fault, r, []⟩

/-- All ways to the front of the ring lead to `oldest`, and none of them has to wait. -/
structure AgreesOnFront (r : Ring α) (oldest : Option α) : Prop where
  shown : r.front? = oldest
  taken : ∃ left, r.takeFront = some (oldest, left) ∧ left.unread = r.unread.tail ∧
    left.read = .next left.freed ∧ (oldest = none → left = r)
  looked : ∀ {β : Type} (look : α → Except Fault β), r.LookEnds look (fun _ => [])
    oldest (r.peek look)
  -- A consumer clones what it sees.
  cloned : ∀ cloning : Cloning α,
    r.LookEnds (cloning.copy 0) (fun copy => [.cloned (.single copy)]) oldest (r.peekClone cloning)
  -- Nobody has the front pinned, and a pin that ends brings the ring back.
  unpinned : r.read = .next r.freed
  pinned : ∃ position held, r.pin = some (position, held) ∧ held.unpin position = r

/-! ## Looking at the front -/

/-- A ring is known by where its cursors stand, so that nothing is left of a pin. -/
theorem unpin_pinned {position : Nat} (read : r.read = .next position) :
    ({ r with read := .pinned } : Ring α).unpin position = r := by
  rw [unpin, ← read]

/-- A ring that nobody has pinned or is extracting from serves the entries between its cursors. -/
theorem serves_unread (read : r.read = .next r.freed) (ordered : r.freed ≤ r.visible)
    (fits : r.visible ≤ r.freed + r.capacity)
    (occupied : ∀ position, r.freed ≤ position → position < r.visible →
      ∃ a, r.entry position = some a) :
    r.Serves r.unread := by
  have front : r.front = r.freed := by simp only [Ring.front, read]
  have count : r.unreadBatch.count = r.visible - r.freed := by
    simp only [unreadBatch, Ring.unreadCount, front]
  have full : r.unreadBatch.Full := by
    intro i inside
    obtain ⟨a, entry⟩ := occupied (r.freed + i) (Nat.le_add_right _ _) (by omega)
    simp only [unreadBatch, front, entry]
    rfl
  have length : r.unread.length = r.visible - r.freed := (Batch.length_toList full).trans count
  refine ⟨read, by omega, by omega, fun i inside => ?_⟩
  have slot := Batch.getElem?_toList full (i := i) (by omega)
  rw [Ring.unread, slot]
  simp only [unreadBatch, front]

theorem LookEnds.ring {look : α → Except Fault β} {log : β → List (Effect α)} {oldest : Option α}
    {call : Call α (Option β)} (ends : r.LookEnds look log oldest call) : call.ring = r := by
  cases ends <;> rfl

namespace Serves

theorem pin (h : r.Serves entries) : r.pin = some (r.freed, { r with read := .pinned }) := by
  simp only [Ring.pin, h.read]

/-- A look sees the oldest entry and leaves the ring as it was, also when it breaks off. -/
theorem peek (h : r.Serves entries) (look : α → Except Fault β) :
    r.peek look =
      match entries.head? with
      | none => .returned none r []
      | some a =>
        match look a with
        | .ok b => .returned (some b) r []
        | .error fault => ⟨.aborted fault, r, []⟩ := by
  have unpinned := unpin_pinned h.read
  simp only [Ring.peek, h.pin]
  cases entries with
  | nil =>
    have visible := h.visible
    rw [List.length_nil, Nat.add_zero] at visible
    rw [if_pos (Nat.le_of_eq visible), unpinned]
    rfl
  | cons a rest =>
    obtain ⟨first, published⟩ := h.oldest
    have held : ({ r with read := .pinned } : Ring α).entry r.freed = some a := first
    rw [if_neg (Nat.not_le_of_lt published), held, unpinned]
    rfl

/-- A consumer that looks at the front makes a clone of the entry, if there is one. -/
theorem peekClone (h : r.Serves entries) (cloning : Cloning α) :
    r.peekClone cloning =
      match entries.head? with
      | none => .returned none r []
      | some a =>
        match (cloning.copy 0) a with
        | .ok copy => .returned (some copy) r [.cloned (.single copy)]
        | .error fault => ⟨.aborted fault, r, []⟩ := by
  rw [Ring.peekClone, h.peek (cloning.copy 0)]
  cases entries with
  | nil => rfl
  | cons a rest =>
    simp only [List.head?_cons]
    cases (cloning.copy 0) a <;> rfl

/-! ## Agreement -/

theorem looked (h : r.Serves entries) (look : α → Except Fault β) :
    r.LookEnds look (fun _ => []) entries.head? (r.peek look) := by
  rw [h.peek look]
  cases entries with
  | nil => exact .nothing
  | cons a rest =>
    simp only [List.head?_cons]
    cases seen : look a with
    | ok b => exact .returned seen
    | error fault => exact .brokeOff seen

theorem cloned (h : r.Serves entries) (cloning : Cloning α) :
    r.LookEnds (cloning.copy 0) (fun copy => [.cloned (.single copy)]) entries.head?
      (r.peekClone cloning) := by
  rw [h.peekClone cloning]
  cases entries with
  | nil => exact .nothing
  | cons a rest =>
    simp only [List.head?_cons]
    cases made : (cloning.copy 0) a with
    | ok copy => exact .returned made
    | error fault => exact .brokeOff made

theorem taken (h : r.Serves entries) :
    ∃ left, r.takeFront = some (entries.head?, left) ∧ left.Serves entries.tail ∧
      (entries.head? = none → left = r) := by
  cases entries with
  | nil => exact ⟨r, h.takeFront_nil, h, fun _ => rfl⟩
  | cons a rest =>
    obtain ⟨left, taken, serves⟩ := h.takeFront_cons
    refine ⟨left, taken, serves, ?_⟩
    rintro ⟨⟩

theorem agrees (h : r.Serves entries) : r.AgreesOnFront entries.head? where
  shown := h.front?
  taken := by
    obtain ⟨left, taken, serves, same⟩ := h.taken
    exact ⟨left, taken, by rw [serves.unread, h.unread], serves.read, same⟩
  looked := h.looked
  cloned := h.cloned
  unpinned := h.read
  pinned := ⟨r.freed, _, h.pin, unpin_pinned h.read⟩

end Serves

end RingQueue.Ring
