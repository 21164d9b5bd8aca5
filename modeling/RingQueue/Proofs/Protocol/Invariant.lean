import Mathlib.Tactic.Common
import RingQueue.Proofs.Protocol.Occupancy

/-!
What holds in every state that threads can reach from a ring at rest.

The front and the list of all entries are read off the history: every extraction moved the front by
one position, and every claim added an entry. `Reachable.sound` is the invariant from which all
statements about runs are drawn.
-/
namespace RingQueue.Protocol

variable {α : Type}

namespace System

/-- The position of `read`, given the first one. -/
def front (s : System α) (first : Nat) : Nat := first + (extractionsIn s.acts).length

/-- The entries of all positions, given those at the start. -/
def entries (s : System α) (unread : List α) : List α := unread ++ (claimsIn s.acts).map Prod.snd

/-- Cursors, slots and threads agree with each other and with the history. -/
structure Sound (first capacity : Nat) (unread : List α) (s : System α) : Prop where
  capacity_eq : s.ring.capacity = capacity
  at_front : Front (s.front first) s.ring s.stages
  cursors : Cursors (s.front first) s.ring s.stages
  occupancy : Occupancy first (s.entries unread) s.ring s.stages
  knows : ∀ thread ∈ s.threads, thread.point.Knows (s.front first) s.ring
  extractions : extractionsIn s.acts = List.range' first (extractionsIn s.acts).length
  claims : (claimsIn s.acts).map Prod.fst =
    List.range' (first + unread.length) (claimsIn s.acts).length

end System

/-! ## The start -/

theorem stages_start (r : Ring α) (calls : List (List (Request α))) :
    (System.start r calls).stages = List.replicate calls.length .free := by
  simp only [System.stages, System.start, List.map_map]
  exact List.map_const'

theorem tally_start (weight : Stage α → Nat) (free : weight .free = 0) (n : Nat) :
    tally weight (List.replicate n .free) = 0 := by
  apply tally_eq_zero
  intro σ member
  rw [List.eq_of_mem_replicate member, free]

theorem System.Sound.start {r : Ring α} {c : Nat} {unread : List α} (h : r.Holds c unread 0)
    (calls : List (List (Request α))) : (System.start r calls).Sound r.freed c unread := by
  have visible := h.visible
  have fits := h.fits
  have write := h.write
  refine ⟨h.capacity, ?_, ?_, ?_, ?_, rfl, rfl⟩
  · rw [stages_start]
    refine ⟨.inl ⟨h.read, tally_start _ rfl _⟩, ?_⟩
    intro q pinning
    cases List.eq_of_mem_replicate pinning
  · -- No thread counts for anything yet, so both windows have to be empty.
    rw [stages_start]
    change Cursors r.freed r _
    refine ⟨Nat.le_refl _, by omega, by omega, ?_, ?_, ?_, ?_⟩
    · rw [tally_start _ rfl, tally_start _ rfl, tally_start _ rfl, h.size]
      omega
    · rw [tally_start _ rfl, tally_start _ rfl, h.capacity]
      omega
    · intro q
      rw [tally_start (Stage.owns q) rfl, window_outside (by omega)]
    · intro q
      rw [tally_start (Stage.extracts q) rfl, window_outside (by omega)]
  · rw [stages_start]
    change Occupancy r.freed (unread ++ []) r _
    rw [List.append_nil]
    refine ⟨Nat.le_refl _, by omega, ?_, ?_⟩
    · intro q above below
      have slot := h.slots (q - r.freed) (by rw [h.capacity] at below; omega)
      rw [Nat.add_sub_cancel' above] at slot
      rw [tally_start (Stage.vacates q) rfl, if_pos rfl, slot]
    · intro σ member q a carries
      rw [List.eq_of_mem_replicate member] at carries
      cases carries
  · intro thread member
    obtain ⟨todo, -, rfl⟩ := List.mem_map.mp member
    trivial

/-! ## Turns -/

section Turns

variable {front : Nat} {r ring : Ring α} {stages : List (Stage α)} {σ τ : Stage α}
  {thread thread' : Thread α} {acts : List (Act α)} {i j : Nat}

/-- What a thread finds out by its own turn. -/
theorem Turn.knows (turn : Turn r thread ring thread' acts) (knows : thread.point.Knows front r)
    (at_front : Front front r stages) :
    thread'.point.Knows (front + (extractionsIn acts).length) ring := by
  cases turn with
  | call request => cases request <;> trivial
  | access todo answers leads =>
    cases leads with
    | wait point => exact knows
    | onTurn position push kept visible => exact visible
    | front position errand read => exact Nat.le_of_eq (at_front.eq_of_next read).1
    | unread position errand published => exact ⟨knows, published⟩
    | mayLeave position a errand freed => exact freed
    | look position stop visit published => exact published
    | clone => exact knows
    | _ => trivial

theorem Cursors.sole_owner (h : Cursors front r stages) {position : Nat} {a b : α}
    {filled full : Bool} (first : stages[i]? = some (.claimed position a filled))
    (second : stages[j]? = some (.claimed position b full)) : i = j := by
  -- Two owners would count twice where the tally is one at most.
  by_contra different
  have two := add_le_tally (Stage.owns position) first second different
  have one := window_le_one r.visible r.write position
  rw [h.owners, Stage.owns, Stage.owns, single_self] at two
  omega

theorem Cursors.sole_extractor (h : Cursors front r stages) {position : Nat} {a b : Option α}
    (first : stages[i]? = some (.extracting position a))
    (second : stages[j]? = some (.extracting position b)) : i = j := by
  by_contra different
  have two := add_le_tally (Stage.extracts position) first second different
  have one := window_le_one r.freed front position
  rw [h.extractors, Stage.extracts, Stage.extracts, single_self] at two
  omega

/-- `visible` is moved by the owner of the position only. -/
theorem Shift.visible_eq (shift : Shift r σ ring τ acts) :
    ring.visible = r.visible ∨ ∃ a, σ = .claimed r.visible a true := by
  cases shift with
  | publish position a next =>
    subst next
    exact .inr ⟨a, rfl⟩
  | _ => exact .inl rfl

/-- `freed` is moved by the extractor of the position only. -/
theorem Shift.freed_eq (shift : Shift r σ ring τ acts) :
    ring.freed = r.freed ∨ ∃ a, σ = .extracting r.freed (some a) := by
  cases shift with
  | leave position a next =>
    subst next
    exact .inr ⟨a, rfl⟩
  | _ => exact .inl rfl

/-- No turn of another thread undoes what a thread knows. -/
theorem Shift.knows (shift : Shift r σ ring τ acts) (cursors : Cursors front r stages)
    (here : stages[i]? = some σ) {point : Point α} (there : stages[j]? = some point.stage)
    (other : i ≠ j) (knows : point.Knows front r) (more : Nat) :
    point.Knows (front + more) ring := by
  cases point with
  | checkFront position errand => exact Nat.le_add_right_of_le knows
  | takeFront position errand =>
    exact ⟨Nat.le_add_right_of_le knows.1, Nat.lt_of_lt_of_le knows.2 shift.visible_le⟩
  | publish position push kept =>
    -- Only an owner of the position could have moved `visible`, and that is the thread itself.
    rcases shift.visible_eq with same | ⟨a, owner⟩
    · exact same.trans knows
    · have own : r.visible = position := knows
      subst own
      exact absurd (cursors.sole_owner (owner ▸ here) there) other
  | leaveSlot position a errand =>
    -- In the same way `freed` waits for its only extractor.
    rcases shift.freed_eq with same | ⟨b, extractor⟩
    · exact same.trans knows
    · have own : r.freed = position := knows
      subst own
      exact absurd (cursors.sole_extractor (extractor ▸ here) there) other
  | cloneSlot position next stop clones visit => exact Nat.le_trans knows shift.visible_le
  | _ => trivial

end Turns

/-! ## Runs -/

theorem System.Sound.turn {first c : Nat} {unread : List α} {s : System α}
    (h : s.Sound first c unread) {i : Nat} {thread thread' : Thread α} {ring : Ring α}
    {acts : List (Act α)} (found : s.threads[i]? = some thread)
    (turn : Turn s.ring thread ring thread' acts) :
    (s.after i ring thread' acts).Sound first c unread := by
  have knows := h.knows thread (List.mem_of_getElem? found)
  have shift := turn.shift knows
  have here := s.stages_getElem? found
  have front : (s.after i ring thread' acts).front first =
      s.front first + (extractionsIn acts).length := by
    simp only [System.front, acts_after, extractionsIn_append, List.length_append, Nat.add_assoc]
  have entries : (s.after i ring thread' acts).entries unread =
      s.entries unread ++ (claimsIn acts).map Prod.snd := by
    simp only [System.entries, acts_after, claimsIn_append, List.map_append, List.append_assoc]
  -- Each part is kept by the shift that the turn amounts to.
  obtain ⟨at_front, extracted⟩ := h.at_front.shift here shift
  have cursors := h.cursors.shift h.at_front here shift
  have occupancy := h.occupancy.shift h.cursors here shift
  have claimed := shift.claims.1
  rw [extractionsIn_filter] at at_front extracted cursors
  rw [claimsIn_filter] at occupancy claimed
  refine ⟨shift.capacity.trans h.capacity_eq, ?_, ?_, ?_, ?_, ?_, ?_⟩
  · rw [front, stages_after]
    exact at_front
  · rw [front, stages_after]
    exact cursors
  · rw [entries, stages_after]
    exact occupancy
  · intro other member
    obtain ⟨j, there⟩ := List.mem_iff_getElem?.mp member
    rw [front]
    by_cases same : i = j
    · -- The thread whose turn it was knows what it found out itself.
      subst same
      rw [System.threads_after_same found] at there
      cases there
      have known := turn.knows knows h.at_front
      exact known
    · rw [System.threads_after_other same] at there
      exact shift.knows h.cursors here (s.stages_getElem? there) same
        (h.knows other (List.mem_of_getElem? there)) _
  · rw [acts_after, extractionsIn_append, List.length_append, ← List.range'_append_1,
      ← h.extractions]
    exact congrArg _ extracted
  · -- The next position to be claimed is the one after all entries so far.
    have write := h.occupancy.write_eq
    simp only [System.entries, List.length_append, List.length_map] at write
    rw [acts_after, claimsIn_append, List.map_append, List.length_append, ← List.range'_append_1,
      ← h.claims, claimed, write]
    simp only [Nat.add_assoc]

theorem Reachable.sound {r : Ring α} {c : Nat} {unread : List α} (h : r.Holds c unread 0)
    {calls : List (List (Request α))} {s : System α}
    (reachable : Reachable (System.start r calls) s) : s.Sound r.freed c unread := by
  apply reachable.invariant
  · exact .start h calls
  · intro s i thread ring thread' acts _ sound found turn
    exact sound.turn found turn

end RingQueue.Protocol
