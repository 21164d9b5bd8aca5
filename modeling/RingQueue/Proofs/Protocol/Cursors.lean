import Mathlib.Tactic.Common
import RingQueue.Proofs.Protocol.History

/-!
How the cursors of a ring stand to what its threads hold.

`Cursors` is kept by every shift of one stage. Its clauses about positions are tallies: every
position between `visible` and `write` has one owner, every position between `freed` and the front
one extractor, and no other position has any.
-/
namespace RingQueue.Protocol

variable {α : Type}

/-! ## Windows of positions -/

/-- Whether `q` is the position, as a number. -/
def single (position q : Nat) : Nat := if position = q then 1 else 0

/-- Whether `q` lies in the window, as a number. -/
def window (first stop q : Nat) : Nat := if first ≤ q ∧ q < stop then 1 else 0

@[simp] theorem single_self (q : Nat) : single q q = 1 := if_pos rfl

theorem single_other {p q : Nat} (other : p ≠ q) : single p q = 0 := if_neg other

theorem window_inside {first stop q : Nat} (above : first ≤ q) (below : q < stop) :
    window first stop q = 1 := if_pos ⟨above, below⟩

theorem window_outside {first stop q : Nat} (outside : q < first ∨ stop ≤ q) :
    window first stop q = 0 := by
  apply if_neg
  omega

theorem window_le_one (first stop q : Nat) : window first stop q ≤ 1 := by
  simp only [window]
  split <;> omega

theorem window_grows {first stop : Nat} (ordered : first ≤ stop) (q : Nat) :
    window first (stop + 1) q = window first stop q + single stop q := by
  simp only [window, single]
  split <;> split <;> split <;> omega

theorem window_shrinks {first stop : Nat} (nonempty : first < stop) (q : Nat) :
    window first stop q = window (first + 1) stop q + single first q := by
  simp only [window, single]
  split <;> split <;> split <;> omega

/-! ## What a stage counts for -/

namespace Stage

/-- Owns position `q`, which is not published. -/
def owns (q : Nat) : Stage α → Nat
  | claimed position _ _ => single position q
  | _ => 0

/-- Has extracted position `q` and not left its slot. -/
def extracts (q : Nat) : Stage α → Nat
  | extracting position _ => single position q
  | _ => 0

def reserves : Stage α → Nat
  | admitted => 1
  | _ => 0

def fails : Stage α → Nat
  | failed => 1
  | _ => 0

def leaves : Stage α → Nat
  | leaving => 1
  | _ => 0

def pins : Stage α → Nat
  | pinning _ => 1
  | _ => 0

end Stage

open Stage

/-! ## The front -/

/-- `front` is the position of `read`, also while it is pinned. -/
structure Front (front : Nat) (r : Ring α) (stages : List (Stage α)) : Prop where
  read : r.read = .next front ∧ tally pins stages = 0 ∨ r.read = .pinned ∧ tally pins stages = 1
  pinned : ∀ q, .pinning q ∈ stages → q = front

section Shifts

variable {front i : Nat} {r ring : Ring α} {stages : List (Stage α)} {σ τ : Stage α}
  {acts : List (Act α)}

theorem Front.eq_of_next (h : Front front r stages) {position : Nat}
    (read : r.read = .next position) : position = front ∧ tally pins stages = 0 := by
  rcases h.read with ⟨next, none⟩ | ⟨pinned, -⟩
  · rw [read] at next
    injection next with same
    exact ⟨same, none⟩
  · rw [read] at pinned
    cases pinned

theorem Front.eq_of_pinning (h : Front front r stages) {position : Nat}
    (pinning : .pinning position ∈ stages) :
    r.read = .pinned ∧ tally pins stages = 1 ∧ position = front := by
  have counted := le_tally pins pinning
  rcases h.read with ⟨-, none⟩ | ⟨pinned, one⟩
  · rw [none] at counted
    cases counted
  · exact ⟨pinned, one, h.pinned position pinning⟩

/-- A step that leaves `read` and the pins alone. -/
theorem Front.keep (h : Front front r stages) (here : stages[i]? = some σ)
    (read : ring.read = r.read) (same : τ.pins = σ.pins) (free : ∀ q, τ ≠ .pinning q) :
    Front front ring (stages.set i τ) := by
  constructor
  · rw [read, tally_set_same pins here same]
    exact h.read
  · intro q pinning
    rcases List.mem_or_eq_of_mem_set pinning with before | now
    · exact h.pinned q before
    · exact absurd now.symm (free q)

/-- An extraction moves the front by one position; the extracted position is the front. -/
theorem Front.shift (h : Front front r stages) (here : stages[i]? = some σ)
    (shift : Shift r σ ring τ acts) :
    Front (front + (extractionsIn acts).length) ring (stages.set i τ) ∧
      extractionsIn acts = List.range' front (extractionsIn acts).length := by
  have pin := tally_set pins here τ
  have pin_same := fun same : τ.pins = σ.pins => tally_set_same pins here same
  cases shift with
  | stay =>
    refine ⟨?_, rfl⟩
    rw [set_same here]
    exact h
  | extract position read =>
    obtain ⟨same, unpinned⟩ := h.eq_of_next read
    subst same
    refine ⟨⟨.inl ⟨rfl, (pin_same rfl).trans unpinned⟩, ?_⟩, rfl⟩
    intro q pinning
    rcases List.mem_or_eq_of_mem_set pinning with before | now
    · -- While `read` is a position nobody has it pinned.
      have counted := le_tally pins before
      rw [unpinned] at counted
      cases counted
    · cases now
  | pin position read =>
    obtain ⟨same, unpinned⟩ := h.eq_of_next read
    subst same
    refine ⟨⟨.inr ⟨rfl, ?_⟩, ?_⟩, rfl⟩
    · simp only [pins, unpinned] at pin
      exact pin
    · intro q pinning
      rcases List.mem_or_eq_of_mem_set pinning with before | now
      · exact h.pinned q before
      · injection now
  | unpin position =>
    obtain ⟨-, one, same⟩ := h.eq_of_pinning (List.mem_of_getElem? here)
    subst same
    simp only [pins, one] at pin
    refine ⟨⟨.inl ⟨rfl, by omega⟩, ?_⟩, rfl⟩
    -- The one pin is gone.
    intro q pinning
    have counted := le_tally pins pinning
    simp only [pins] at counted
    omega
  | _ => exact ⟨h.keep here rfl rfl (fun _ => nofun), rfl⟩

/-! ## The other cursors -/

/-- The cursors fit the stages of the threads. -/
structure Cursors (front : Nat) (r : Ring α) (stages : List (Stage α)) : Prop where
  freed_le : r.freed ≤ front
  front_le : front ≤ r.visible
  visible_le : r.visible ≤ r.write
  size_eq : r.size =
    (r.write - r.freed) + tally leaves stages + tally reserves stages + tally fails stages
  fits : (r.write - r.freed) + tally leaves stages + tally reserves stages ≤ r.capacity
  owners : ∀ q, tally (owns q) stages = window r.visible r.write q
  extractors : ∀ q, tally (extracts q) stages = window r.freed front q

theorem Cursors.claimed (h : Cursors front r stages) {position : Nat} {a : α} {filled : Bool}
    (claimed : .claimed position a filled ∈ stages) : r.visible ≤ position ∧
    position < r.write := by
  have counted := le_tally (owns position) claimed
  rw [h.owners position, owns, single_self] at counted
  by_contra outside
  rw [window_outside (by omega)] at counted
  cases counted

theorem Cursors.extracting (h : Cursors front r stages) {position : Nat} {taken : Option α}
    (extracting : .extracting position taken ∈ stages) : r.freed ≤ position ∧ position < front := by
  have counted := le_tally (extracts position) extracting
  rw [h.extractors position, extracts, single_self] at counted
  by_contra outside
  rw [window_outside (by omega)] at counted
  cases counted

theorem Cursors.shift (h : Cursors front r stages) (at_front : Front front r stages)
    (here : stages[i]? = some σ) (shift : Shift r σ ring τ acts) :
    Cursors (front + (extractionsIn acts).length) ring (stages.set i τ) := by
  have member := List.mem_of_getElem? here
  -- How each tally changes with the stage of the one thread.
  have own := fun q => tally_set (owns q) here τ
  have extract := fun q => tally_set (extracts q) here τ
  have reserve := tally_set reserves here τ
  have fail := tally_set fails here τ
  have leave := tally_set leaves here τ
  -- A stage that owns or has extracted what it did before keeps the clause.
  have owners := fun same : ∀ q, τ.owns q = σ.owns q =>
    fun q => (tally_set_same (owns q) here (same q)).trans (h.owners q)
  have extractors := fun same : ∀ q, τ.extracts q = σ.extracts q =>
    fun q => (tally_set_same (extracts q) here (same q)).trans (h.extractors q)
  have freed_le := h.freed_le
  have front_le := h.front_le
  have visible_le := h.visible_le
  have size_eq := h.size_eq
  have fits := h.fits
  cases shift with
  | stay =>
    rw [set_same here]
    exact h
  -- Only `size` changes, and with it what is counted for it; or nothing that is counted.
  | enter | overshoot | undo | giveBack | lower | fill | empty | pin | unpin =>
    simp only [reserves, fails, leaves] at reserve fail leave
    exact { h with
      size_eq := by simp only; omega
      fits := by simp only; omega
      owners := owners fun _ => rfl
      extractors := extractors fun _ => rfl }
  | claim a =>
    -- An admission turns into a position: the sum in `fits` stays what it was.
    simp only [reserves, fails, leaves] at reserve fail leave
    exact { h with
      visible_le := Nat.le_succ_of_le visible_le
      size_eq := by simp only; omega
      fits := by simp only; omega
      owners := by
        intro q
        have owner := own q
        simp only [owns, h.owners q] at owner
        simp only [window_grows visible_le]
        omega
      extractors := extractors fun _ => rfl }
  | publish position a next =>
    -- The first window loses its lowest position and the thread what it owned.
    subst next
    have below := (h.claimed member).2
    simp only [reserves, fails, leaves] at reserve fail leave
    exact { h with
      front_le := Nat.le_succ_of_le front_le
      visible_le := below
      size_eq := by simp only; omega
      fits := by simp only; omega
      owners := by
        intro q
        have owner := own q
        simp only [owns, h.owners q, window_shrinks below] at owner
        simp only
        omega
      extractors := extractors fun _ => rfl }
  | extract position read published =>
    -- The second window grows by the position that the thread now has extracted.
    obtain ⟨same, -⟩ := at_front.eq_of_next read
    subst same
    simp only [reserves, fails, leaves] at reserve fail leave
    exact { h with
      freed_le := Nat.le_succ_of_le freed_le
      front_le := published
      size_eq := by simp only; omega
      fits := by simp only; omega
      owners := owners fun _ => rfl
      extractors := by
        intro q
        have extractor := extract q
        simp only [extracts, h.extractors q] at extractor
        change _ = window r.freed (position + 1) q
        simp only [window_grows freed_le]
        omega }
  | leave position a next =>
    subst next
    have below := (h.extracting member).2
    simp only [reserves, fails, leaves] at reserve fail leave
    exact { h with
      freed_le := below
      size_eq := by simp only; omega
      fits := by simp only; omega
      owners := owners fun _ => rfl
      extractors := by
        intro q
        have extractor := extract q
        simp only [extracts, h.extractors q, window_shrinks below] at extractor
        change _ = window (r.freed + 1) front q
        omega }

end Shifts

end RingQueue.Protocol
