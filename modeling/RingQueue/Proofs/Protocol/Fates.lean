import Mathlib.Data.List.Perm.Basic
import RingQueue.Proofs.Protocol.Accounts
import RingQueue.Proofs.Protocol.Invariant

/-!
What becomes of the entries of a ring.

The entries extracted are the first ones, in order. Once all threads are between two calls the ring
is at rest again and holds the others, and each extracted entry was popped, evicted or dropped.
-/
namespace RingQueue.Protocol

variable {α : Type}

/-! ## Entries and positions -/

section Runs

variable {r : Ring α} {c : Nat} {unread : List α} {calls : List (List (Request α))} {s : System α}

theorem Shift.emptied {r ring : Ring α} {σ τ : Stage α} {acts : List (Act α)}
    (shift : Shift r σ ring τ acts) {position : Nat} {a : α}
    (emptied : (position, a) ∈ emptyingsIn acts) : τ = .extracting position (some a) := by
  cases shift with
  | empty q b entry =>
    cases List.mem_singleton.mp emptied
    rfl
  | _ => cases emptied

/-- What is taken out of a slot is the entry of the position. -/
theorem Reachable.emptied_entry (h : r.Holds c unread 0)
    (reachable : Reachable (System.start r calls) s) :
    ∀ position a, (position, a) ∈ emptyingsIn s.acts →
      (s.entries unread)[position - r.freed]? = some a := by
  apply reachable.invariant fun s => ∀ position a, (position, a) ∈ emptyingsIn s.acts →
    (s.entries unread)[position - r.freed]? = some a
  · intro position a emptied
    cases emptied
  · intro t i thread ring thread' acts before ih found turn position a emptied
    have sound := before.sound h
    have after := sound.turn found turn
    rw [System.acts_after, emptyingsIn_append, List.mem_append] at emptied
    rcases emptied with old | new
    · -- Entries claimed in this turn come last and move none of the others.
      have known := ih position a old
      have inside := (List.getElem?_eq_some_iff.mp known).1
      simp only [System.entries, System.acts_after, claimsIn_append, List.map_append]
        at known inside ⊢
      rw [← List.append_assoc, List.getElem?_append_left inside]
      exact known
    · -- The thread now has the entry outside of the slot, and what it has is known.
      have shift := turn.shift (sound.knows thread (List.mem_of_getElem? found))
      rw [← emptyingsIn_filter] at new
      apply after.occupancy.carried thread'.point.stage
      · rw [System.stages_after]
        exact List.mem_set (List.getElem?_eq_some_iff.mp (t.stages_getElem? found)).1 _
      · rw [shift.emptied new]
        rfl

/-- What was claimed for a position is its entry. -/
theorem System.Sound.claimed_entry {first : Nat} (h : s.Sound first c unread)
    {position : Nat} {a : α} (claimed : (position, a) ∈ claimsIn s.acts) :
    first ≤ position ∧ (s.entries unread)[position - first]? = some a := by
  obtain ⟨i, here⟩ := List.mem_iff_getElem?.mp claimed
  have inside := (List.getElem?_eq_some_iff.mp here).1
  have at_index : ((claimsIn s.acts).map Prod.fst)[i]? = some position := by
    rw [List.getElem?_map, here]
    rfl
  rw [h.claims, List.getElem?_range' inside, Option.some.injEq] at at_index
  constructor
  · omega
  · -- The entries unread at the start come before all that were claimed.
    have index : position - first = unread.length + i := by omega
    rw [System.entries, index, List.getElem?_append_right (Nat.le_add_right _ _),
      Nat.add_sub_cancel_left, List.getElem?_map, here]
    rfl

end Runs

/-! ## What was extracted -/

namespace System

/-- The entry extracted at a position: the one taken out of the slot, or the one that is about to
be. -/
def extracted? (s : System α) (position : Nat) : Option α :=
  ((emptyingsIn s.acts).lookup position).or (s.ring.entry position)

end System

section Runs

variable {r : Ring α} {c : Nat} {unread : List α} {calls : List (List (Request α))} {s : System α}

theorem Reachable.extracted_entry (h : r.Holds c unread 0)
    (reachable : Reachable (System.start r calls) s) {position : Nat}
    (extracted : position ∈ extractionsIn s.acts) :
    s.extracted? position = (s.entries unread)[position - r.freed]? := by
  have sound := reachable.sound h
  rw [System.extracted?]
  cases found : (emptyingsIn s.acts).lookup position with
  | some a =>
    obtain ⟨before, after, split, -⟩ := List.lookup_eq_some_iff.mp found
    have emptied : (position, a) ∈ emptyingsIn s.acts := by
      rw [split]
      exact List.mem_append_right before List.mem_cons_self
    exact (reachable.emptied_entry h position a emptied).symm
  | none =>
    -- The slot was not emptied, so its extractor is about to do it.
    have fate : position ∈ (extractionsIn s.acts : Multiset Nat) := extracted
    rw [reachable.pending_balance, Multiset.mem_add, mem_tally] at fate
    rcases fate with emptied | ⟨thread, member, pending⟩
    · obtain ⟨⟨q, a⟩, inside, rfl⟩ := List.mem_map.mp (Multiset.mem_coe.mp emptied)
      have missing := List.lookup_eq_none_iff.mp found _ inside
      simp at missing
    · obtain ⟨i, there⟩ := List.mem_iff_getElem?.mp member
      have here := s.stages_getElem? there
      cases point : thread.point with
      | emptySlot q errand =>
        rw [point] at here pending
        cases List.mem_singleton.mp (Multiset.mem_coe.mp pending)
        have extracting := sound.cursors.extracting (List.mem_of_getElem? here)
        have front_le := sound.cursors.front_le
        have visible_le := sound.cursors.visible_le
        have fits := sound.cursors.fits
        have slot := sound.occupancy.slots position extracting.1 (by omega)
        rw [sound.cursors.filled_of_extracting here, if_pos rfl] at slot
        exact slot
      | _ =>
        rw [point] at pending
        cases pending

theorem System.Sound.extracted_le {first : Nat} (h : s.Sound first c unread) :
    (extractionsIn s.acts).length ≤ (s.entries unread).length := by
  have write := h.occupancy.write_eq
  have front_le := h.cursors.front_le
  have visible_le := h.cursors.visible_le
  rw [System.front] at front_le
  omega

/-- The positions from the first one on, with the entries at their places. -/
theorem map_range'_getElem? (entries : List α) (first : Nat) {n : Nat}
    (inside : n ≤ entries.length) : (List.range' first n).map (fun q => entries[q - first]?) =
    (entries.take n).map some := by
  apply List.ext_getElem?
  intro i
  rw [List.getElem?_map, List.getElem?_map, List.getElem?_take]
  by_cases below : i < n
  · rw [List.getElem?_range' below, if_pos below, Option.map_some, Nat.one_mul,
      Nat.add_sub_cancel_left, List.getElem?_eq_getElem (by omega)]
    rfl
  · rw [if_neg below, List.getElem?_eq_none (by rw [List.length_range']; omega)]
    rfl

theorem Reachable.emptied_values (h : r.Holds c unread 0)
    (reachable : Reachable (System.start r calls) s) :
    ((emptyingsIn s.acts).map Prod.snd).map some =
      ((emptyingsIn s.acts).map Prod.fst).map fun q => (s.entries unread)[q - r.freed]? := by
  rw [List.map_map, List.map_map]
  apply List.map_congr_left
  rintro ⟨position, a⟩ member
  exact (reachable.emptied_entry h position a member).symm

/-- The entries extracted are the first ones, in the order of their positions. -/
theorem Reachable.extracted_prefix (h : r.Holds c unread 0)
    (reachable : Reachable (System.start r calls) s) :
    (extractionsIn s.acts).map s.extracted? =
      ((s.entries unread).take (extractionsIn s.acts).length).map some := by
  have sound := reachable.sound h
  rw [← map_range'_getElem? _ r.freed sound.extracted_le, ← sound.extractions]
  exact List.map_congr_left fun position extracted => reachable.extracted_entry h extracted

/-! ## No thread holds anything -/

/-- Threads that hold nothing leave the ring at rest, with the entries that were not extracted. -/
theorem System.Sound.rest {first : Nat} (h : s.Sound first c unread)
    (all_free : ∀ σ ∈ s.stages, σ = .free) :
    s.ring.Holds c ((s.entries unread).drop (extractionsIn s.acts).length) 0 ∧
      s.ring.freed = s.front first := by
  have free : ∀ (weight : Stage α → Nat), weight .free = 0 → tally weight s.stages = 0 := by
    intro weight zero
    apply tally_eq_zero
    intro σ member
    rw [all_free σ member]
    exact zero
  -- A position between two cursors would have an owner, an extractor or a pin.
  have published : s.ring.visible = s.ring.write := by
    have owner := h.cursors.owners s.ring.visible
    have visible_le := h.cursors.visible_le
    rw [free _ rfl] at owner
    by_contra different
    rw [window_inside (Nat.le_refl _) (by omega)] at owner
    cases owner
  have freed : s.ring.freed = s.front first := by
    have extractor := h.cursors.extractors s.ring.freed
    have freed_le := h.cursors.freed_le
    rw [free _ rfl] at extractor
    by_contra different
    rw [window_inside (Nat.le_refl _) (by omega)] at extractor
    cases extractor
  have unpinned : s.ring.read = .next (s.front first) := by
    rcases h.at_front.read with ⟨next, -⟩ | ⟨-, one⟩
    · exact next
    · rw [free _ rfl] at one
      cases one
  have write := h.occupancy.write_eq
  have size := h.cursors.size_eq
  have fits := h.cursors.fits
  have extracted_le := h.extracted_le
  have capacity := h.capacity_eq
  have first_le := h.occupancy.first_le
  rw [free _ rfl, free _ rfl, free _ rfl] at size
  rw [free _ rfl, free _ rfl] at fits
  rw [System.front] at freed
  refine ⟨⟨capacity, ?_, ?_, ?_, ?_, published.symm, ?_⟩, freed⟩
  · rw [List.length_drop]
    omega
  · rw [List.length_drop]
    omega
  · rw [unpinned, freed, System.front]
  · rw [List.length_drop]
    omega
  · intro i below
    have slot := h.occupancy.slots (s.ring.freed + i) (Nat.le_add_right _ _) (by omega)
    -- As many positions lie before `freed` as entries were extracted.
    have index : s.ring.freed + i - first = (extractionsIn s.acts).length + i := by omega
    rw [free _ rfl, if_pos rfl, index] at slot
    rw [slot, List.getElem?_drop]

/-- Once no call is in progress every entry was popped, was handed out by the push that evicted it,
was dropped, or is unread. -/
theorem Reachable.accounted (h : r.Holds c unread 0)
    (reachable : Reachable (System.start r calls) s)
    (idle : ∀ thread ∈ s.threads, thread.point = .idle) :
    (s.entries unread).Perm
      (poppedIn s.acts ++ evictedIn s.acts ++ droppedIn s.acts ++ s.ring.unread) := by
  have sound := reachable.sound h
  have held := reachable.held_balance
  have pending := reachable.pending_balance
  rw [tally_eq_zero (fun thread member => by rw [idle thread member]; rfl), add_zero,
    Multiset.coe_eq_coe] at held pending
  -- The entries emptied are those of the first positions, in another order.
  have emptied : ((emptyingsIn s.acts).map Prod.snd).Perm
      ((s.entries unread).take (extractionsIn s.acts).length) := by
    apply (List.map_perm_map_iff (Option.some_injective α)).mp
    rw [← map_range'_getElem? _ r.freed sound.extracted_le, ← sound.extractions]
    rw [reachable.emptied_values h]
    exact pending.symm.map _
  have all_free : ∀ σ ∈ s.stages, σ = .free := by
    intro σ member
    obtain ⟨thread, inside, rfl⟩ := List.mem_map.mp member
    rw [idle thread inside]
    rfl
  rw [(sound.rest all_free).1.unread]
  calc s.entries unread
      = (s.entries unread).take (extractionsIn s.acts).length ++
          (s.entries unread).drop (extractionsIn s.acts).length := (List.take_append_drop ..).symm
    List.Perm _ _ := (emptied.symm.trans held).append_right _

end Runs

end RingQueue.Protocol
