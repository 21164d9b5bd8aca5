import Mathlib.Algebra.BigOperators.Group.List.Basic
import Mathlib.Algebra.Order.Group.Multiset
import Mathlib.Tactic.Common

/-!
Sums over the members of a list, of which one is replaced.

Every fact about all threads of a ring is stated as a tally: how many of them own a position, how
many have raised the count, which entries they carry. A step replaces one thread, and `tally_set`
says what that does to a tally.
-/
namespace RingQueue

variable {β M : Type}

theorem set_same {members : List β} {i : Nat} {a : β} (member : members[i]? = some a) :
    members.set i a = members := by
  obtain ⟨_, here⟩ := List.getElem?_eq_some_iff.mp member
  rw [← here, List.set_getElem_self]

/-- The sum of the weights of all members. -/
def tally [AddCommMonoid M] (weight : β → M) (members : List β) : M := (members.map weight).sum

section Sums

variable [AddCommMonoid M] {weight : β → M} {members : List β} {a b : β} {i j : Nat}

@[simp] theorem tally_nil : tally weight [] = 0 := rfl

@[simp] theorem tally_cons : tally weight (a :: members) = weight a + tally weight members :=
  List.sum_cons

/-- Replacing a member trades its weight for the other one's. -/
theorem tally_set (weight : β → M) (member : members[i]? = some a) (b : β) :
    tally weight (members.set i b) + weight a = tally weight members + weight b := by
  induction members generalizing i with
  | nil => cases member
  | cons first rest ih =>
    cases i with
    | zero =>
      cases member
      simp only [List.set_cons_zero, tally_cons]
      rw [add_right_comm, add_comm (weight b), add_right_comm]
    | succ i =>
      simp only [List.set_cons_succ, tally_cons, add_assoc, ih member]

theorem tally_eq_zero (none : ∀ a ∈ members, weight a = 0) : tally weight members = 0 := by
  induction members with
  | nil => rfl
  | cons first rest ih =>
    rw [tally_cons, none first List.mem_cons_self, zero_add]
    exact ih fun a member => none a (List.mem_cons_of_mem first member)

end Sums

section Counts

variable {weight : β → Nat} {members : List β} {a b : β} {i j : Nat}

/-- Replacing a member by one of the same weight does not matter. -/
theorem tally_set_same (weight : β → Nat) (member : members[i]? = some a) {b : β}
    (same : weight b = weight a) :
    tally weight (members.set i b) = tally weight members := by
  have moved := tally_set weight member b
  rw [same] at moved
  exact Nat.add_right_cancel moved

theorem le_tally (weight : β → Nat) (member : a ∈ members) : weight a ≤ tally weight members := by
  induction members with
  | nil => cases member
  | cons first rest ih =>
    rw [tally_cons]
    rcases List.mem_cons.mp member with rfl | later
    · exact Nat.le_add_right _ _
    · exact Nat.le_trans (ih later) (Nat.le_add_left _ _)

/-- Two members weigh no more than all. -/
theorem add_le_tally (weight : β → Nat) (first : members[i]? = some a)
    (second : members[j]? = some b) (different : i ≠ j) :
    weight a + weight b ≤ tally weight members := by
  induction members generalizing i j with
  | nil => cases first
  | cons head rest ih =>
    rw [tally_cons]
    cases i with
    | zero =>
      cases j with
      | zero => exact absurd rfl different
      | succ j =>
        rw [List.getElem?_cons_zero] at first
        rw [List.getElem?_cons_succ] at second
        cases first
        exact Nat.add_le_add_left (le_tally weight (List.mem_of_getElem? second)) _
    | succ i =>
      rw [List.getElem?_cons_succ] at first
      cases j with
      | zero =>
        rw [List.getElem?_cons_zero] at second
        cases second
        have below := le_tally weight (List.mem_of_getElem? first)
        omega
      | succ j =>
        rw [List.getElem?_cons_succ] at second
        have below := ih first second (by omega)
        omega

theorem exists_of_tally_pos (positive : 0 < tally weight members) :
    ∃ a ∈ members, 0 < weight a := by
  by_contra none
  simp only [not_exists, not_and, Nat.not_lt, Nat.le_zero] at none
  have := tally_eq_zero none
  omega

theorem tally_add (weight other : β → Nat) (members : List β) :
    tally (fun a => weight a + other a) members = tally weight members + tally other members := by
  induction members with
  | nil => rfl
  | cons first rest ih =>
    simp only [tally_cons, ih]
    omega

theorem tally_le {other : β → Nat} (below : ∀ a ∈ members, weight a ≤ other a) :
    tally weight members ≤ tally other members := by
  induction members with
  | nil => exact Nat.le_refl 0
  | cons first rest ih =>
    rw [tally_cons, tally_cons]
    exact Nat.add_le_add (below first List.mem_cons_self)
      (ih fun a member => below a (List.mem_cons_of_mem first member))

end Counts

theorem mem_tally {weight : β → Multiset M} {members : List β} {x : M} :
    x ∈ tally weight members ↔ ∃ a ∈ members, x ∈ weight a := by
  induction members with
  | nil => simp
  | cons first rest ih => simp [ih]

end RingQueue
