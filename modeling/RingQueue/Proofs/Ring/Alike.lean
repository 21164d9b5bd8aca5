import RingQueue.PolicyQueue
import RingQueue.Ring.Timed
import RingQueue.Proofs.Ring.Contents

/-!
Rings that differ in nothing that a call can see.

Alike rings have the same cursors and the same entries at all positions, however these came there.
Every call ends alike on them: with the same outcome and the same effects, and it leaves rings that
are alike again. Each call has one lemma. Rings at rest with the same contents are alike if they
begin at the same position (`Ring.Holds.alike`).
-/
namespace RingQueue

variable {α β γ : Type}

/-- The rings differ in nothing but how their slots came to hold what they hold. -/
structure Ring.Alike (r r' : Ring α) : Prop where
  capacity : r'.capacity = r.capacity
  size : r'.size = r.size
  write : r'.write = r.write
  visible : r'.visible = r.visible
  read : r'.read = r.read
  freed : r'.freed = r.freed
  entry : ∀ position, r'.entry position = r.entry position

/-- The calls ended alike, and left rings that are alike. -/
structure Call.Alike (made made' : Call α β) : Prop where
  outcome : made'.outcome = made.outcome
  ring : made.ring.Alike made'.ring
  effects : made'.effects = made.effects

namespace Ring

theorem Alike.refl (r : Ring α) : r.Alike r := ⟨rfl, rfl, rfl, rfl, rfl, rfl, fun _ => rfl⟩

/-- In a round of any beginning each slot has a position. -/
theorem exists_slotOf_eq (r : Ring α) (first position : Nat) (positive : 0 < r.capacity) :
    ∃ i, i < r.capacity ∧ r.slotOf (first + i) = r.slotOf position := by
  refine ⟨(position + (r.capacity - first % r.capacity)) % r.capacity, Nat.mod_lt _ positive, ?_⟩
  have below := Nat.mod_lt first positive
  have parts := Nat.div_add_mod first r.capacity
  -- Together the two come to `position` and whole rounds.
  have whole : first + (position + (r.capacity - first % r.capacity)) =
      position + r.capacity * (first / r.capacity + 1) := by
    rw [Nat.mul_add]
    omega
  simp only [slotOf, Nat.add_mod_mod, whole, Nat.add_mul_mod_self_left]

/-- Rings at rest are alike if they hold the same entries from the same position on. -/
theorem Holds.alike {r r' : Ring α} {capacity reserved : Nat} {entries : List α}
    (h : r.Holds capacity entries reserved) (h' : r'.Holds capacity entries reserved)
    (freed : r'.freed = r.freed) (positive : 0 < capacity) : r.Alike r' := by
  have same : r'.capacity = r.capacity := h'.capacity.trans h.capacity.symm
  have visible : r'.visible = r.visible := by rw [h'.visible, h.visible, freed]
  refine ⟨same, h'.size.trans h.size.symm, ?_, visible, ?_, freed, ?_⟩
  · rw [h'.write, h.write, visible]
  · rw [h'.read, h.read, freed]
  · intro position
    obtain ⟨i, inside, slot⟩ := r.exists_slotOf_eq r.freed position (by rwa [h.capacity])
    have slot' : r'.slotOf (r.freed + i) = r'.slotOf position := by
      simpa only [slotOf, same] using slot
    rw [h.capacity] at inside
    have here := h.slots i inside
    have there := h'.slots i inside
    rw [freed] at there
    rw [Ring.entry, slot] at here
    rw [Ring.entry, slot'] at there
    rw [Ring.entry, Ring.entry, here, there]

namespace Alike

variable {r r' : Ring α}

/-! ## What can be seen -/

theorem front (h : r.Alike r') : r'.front = r.front := by
  simp only [Ring.front, h.read, h.visible]

theorem unreadCount (h : r.Alike r') : r'.unreadCount = r.unreadCount := by
  simp only [Ring.unreadCount, h.visible, h.front]

theorem unreadBatch (h : r.Alike r') : r'.unreadBatch = r.unreadBatch := by
  simp only [Ring.unreadBatch, h.unreadCount, h.front, h.entry]

theorem len (h : r.Alike r') : r'.len = r.len := by
  simp only [Ring.len, h.size, h.capacity]

theorem isEmpty (h : r.Alike r') : r'.isEmpty = r.isEmpty := by
  simp only [Ring.isEmpty, h.len]

theorem isFull (h : r.Alike r') : r'.isFull = r.isFull := by
  simp only [Ring.isFull, h.len, h.capacity]

theorem front? (h : r.Alike r') : r'.front? = r.front? := by
  simp only [Ring.front?, h.read, h.visible, h.entry]

/-! ## The steps of an entry -/

theorem slotIsFree (h : r.Alike r') (position : Nat) : r'.slotIsFree position =
    r.slotIsFree position := by
  simp only [Ring.slotIsFree, h.capacity, h.freed]

/-- The same content in the slot of the same position. -/
theorem entry_setSlot (h : r.Alike r') (position other : Nat) (content : Option α) :
    { r' with slots := r'.setSlot position content }.entry other =
      { r with slots := r.setSlot position content }.entry other := by
  rw [Ring.entry_setSlot, Ring.entry_setSlot, h.entry]
  exact if_congr (by rw [slotOf, slotOf, h.capacity]; rfl) rfl rfl

theorem tryAdmission (h : r.Alike r') :
    (r.tryAdmission = none ∧ r'.tryAdmission = none) ∨
      ∃ s s', r.tryAdmission = some s ∧ r'.tryAdmission = some s' ∧ s.Alike s' := by
  by_cases room : r.size < r.capacity
  · have room' : r'.size < r'.capacity := by rwa [h.size, h.capacity]
    rw [Ring.tryAdmission, Ring.tryAdmission, if_pos room, if_pos room']
    exact .inr ⟨_, _, rfl, rfl, { h with size := congrArg (· + 1) h.size, entry := h.entry }⟩
  · have full : ¬ r'.size < r'.capacity := by rwa [h.size, h.capacity]
    rw [Ring.tryAdmission, Ring.tryAdmission, if_neg room, if_neg full]
    exact .inl ⟨rfl, rfl⟩

theorem returnAdmission (h : r.Alike r') : r.returnAdmission.Alike r'.returnAdmission :=
  { h with size := congrArg (· - 1) h.size }

theorem publish (h : r.Alike r') (a : α) :
    (r.publish a = none ∧ r'.publish a = none) ∨
      ∃ s s', r.publish a = some s ∧ r'.publish a = some s' ∧ s.Alike s' := by
  simp only [Ring.publish, h.slotIsFree, h.visible, h.write]
  split
  · exact .inr ⟨_, _, rfl, rfl, h.capacity, h.size, rfl, rfl, h.read, h.freed,
      fun other => h.entry_setSlot r.write other (some a)⟩
  · exact .inl ⟨rfl, rfl⟩

theorem takeFront (h : r.Alike r') :
    (r.takeFront = none ∧ r'.takeFront = none) ∨
      ∃ taken s s', r.takeFront = some (taken, s) ∧ r'.takeFront = some (taken, s') ∧
        s.Alike s' := by
  simp only [Ring.takeFront, h.read, h.visible, h.freed, h.entry]
  cases r.read with
  | pinned => exact .inl ⟨rfl, rfl⟩
  | next position =>
    dsimp only
    split
    · exact .inr ⟨_, _, _, rfl, rfl, h⟩
    · split
      · have size : r'.size - 1 = r.size - 1 := by rw [h.size]
        exact .inr ⟨_, _, _, rfl, rfl, h.capacity, size, h.write, rfl, rfl, rfl,
          fun other => h.entry_setSlot position other none⟩
      · exact .inl ⟨rfl, rfl⟩

theorem pin (h : r.Alike r') :
    (r.pin = none ∧ r'.pin = none) ∨
      ∃ position s s', r.pin = some (position, s) ∧ r'.pin = some (position, s') ∧ s.Alike s' := by
  simp only [Ring.pin, h.read]
  cases r.read with
  | pinned => exact .inl ⟨rfl, rfl⟩
  | next position =>
    exact .inr ⟨_, _, _, rfl, rfl, { h with read := rfl, entry := h.entry }⟩

theorem unpin (h : r.Alike r') (position : Nat) : (r.unpin position).Alike (r'.unpin position) :=
  { h with read := rfl, entry := h.entry }

end Alike

end Ring

/-! ## Calls in a row -/

namespace Call.Alike

variable {made made' : Call α β} {r r' : Ring α}

theorem returned (h : r.Alike r') (value : β) (effects : List (Effect α)) :
    (Call.returned value r effects).Alike (.returned value r' effects) := ⟨rfl, h, rfl⟩

theorem waiting (h : r.Alike r') : (Call.waiting r : Call α β).Alike (.waiting r') := ⟨rfl, h, rfl⟩

theorem map (h : made.Alike made') (f : β → γ) : (made.map f).Alike (made'.map f) :=
  ⟨congrArg (Outcome.map f) h.outcome, h.ring, h.effects⟩

theorem after (h : made.Alike made') (effects : List (Effect α)) :
    (made.after effects).Alike (made'.after effects) :=
  ⟨h.outcome, h.ring, congrArg (effects ++ ·) h.effects⟩

theorem andThen (h : made.Alike made') {next : β → Ring α → Call α γ}
    (later : ∀ value r r', r.Alike r' → (next value r).Alike (next value r')) :
    (made.andThen next).Alike (made'.andThen next) := by
  obtain ⟨outcome, ring, effects⟩ := made
  obtain ⟨outcome', ring', effects'⟩ := made'
  obtain ⟨same, rings, rfl⟩ : outcome' = outcome ∧ ring.Alike ring' ∧ effects' = effects :=
    ⟨h.outcome, h.ring, h.effects⟩
  obtain rfl := same
  cases outcome' with
  | returned value => exact (later value ring ring' rings).after _
  | aborted fault => exact ⟨rfl, rings, rfl⟩
  | waiting => exact ⟨rfl, rings, rfl⟩

end Call.Alike

namespace Ring.Alike

variable {r r' : Ring α}

/-! ## Pushes -/

theorem evictUntilRoom (h : r.Alike r') (turns : Nat) (kept : Option α) :
    (Ring.evictUntilRoom turns kept r).Alike (Ring.evictUntilRoom turns kept r') := by
  induction turns generalizing kept r r' with
  | zero => exact .waiting h
  | succ turns ih =>
    unfold Ring.evictUntilRoom
    rcases h.tryAdmission with ⟨full, full'⟩ | ⟨s, s', admitted, admitted', alike⟩
    · rw [full, full']
      dsimp only
      rcases h.takeFront with ⟨held, held'⟩ | ⟨victim, s, s', taken, taken', alike⟩
      · rw [held, held']
        exact .waiting h
      · rw [taken, taken']
        cases victim with
        | none => exact .waiting h
        | some victim =>
          dsimp only
          rw [alike.capacity]
          cases kept with
          | none => exact (ih alike _).after _
          | some kept => exact (ih alike _).after _
    · rw [admitted, admitted']
      exact .returned alike _ _

theorem request (h : r.Alike r') (policy : OverflowPolicy) :
    (r.request policy).Alike (r'.request policy) := by
  cases policy with
  | overwrite =>
    simp only [Ring.request, h.unreadCount]
    exact h.evictUntilRoom _ _
  | reject | block =>
    unfold Ring.request
    rcases h.tryAdmission with ⟨full, full'⟩ | ⟨s, s', admitted, admitted', alike⟩
    · rw [full, full', h.capacity]
      exact ⟨rfl, h, rfl⟩
    · rw [admitted, admitted']
      exact .returned alike _ _

/-- An admitted entry is published, or waits. -/
theorem published (h : r.Alike r') (a : α) (value : β) :
    Call.Alike
      (match r.publish a with
        | some r => .returned value r []
        | none => .waiting r)
      (match r'.publish a with
        | some r => .returned value r []
        | none => .waiting r') := by
  rcases h.publish a with ⟨waits, waits'⟩ | ⟨s, s', published, published', alike⟩
  · rw [waits, waits']
    exact .waiting h
  · rw [published, published']
    exact .returned alike _ _

theorem settle (h : r.Alike r') (evicted : Option α) (made : Except Fault α) :
    (r.settle evicted made).Alike (r'.settle evicted made) := by
  cases made with
  | error fault => exact ⟨rfl, h.returnAdmission, rfl⟩
  | ok a =>
    exact h.published a _

theorem push (h : r.Alike r') (policy : OverflowPolicy)
    (a : α) : (r.push policy a).Alike (r'.push policy a) := by
  unfold Ring.push Ring.emplace
  refine (h.request policy).andThen fun room r r' h => ?_
  cases room with
  | denied => exact .returned h _ _
  | granted evicted => exact h.settle evicted (.ok a)

theorem report (h : r.Alike r') (k : EntryKind α) (turnedDown : Option α) (pushed : Pushed α) :
    (Ring.report k turnedDown pushed r).Alike (Ring.report k turnedDown pushed r') := by
  cases pushed with
  | denied => exact ⟨rfl, h, rfl⟩
  | stored evicted => exact ⟨rfl, h, rfl⟩

theorem pushUnder (h : r.Alike r') (k : EntryKind α) (policy : OverflowPolicy) (a : α) :
    (r.pushUnder k policy a).Alike (r'.pushUnder k policy a) :=
  (h.push policy a).andThen fun pushed _ _ h => h.report k (some a) pushed

/-- Alike rings stay alike during the interludes. -/
def Undisturbed (interludes : List (Interlude α)) : Prop :=
  ∀ now ∈ interludes, ∀ r r' : Ring α, r.Alike r' → (now.change r).Alike (now.change r')

/-- Nothing happens while no other handle does anything. -/
theorem undisturbed (deadline : Deadline) :
    Undisturbed (Ring.undisturbed deadline : List (Interlude α)) := by
  cases deadline with
  | none => exact nofun
  | some time =>
    intro now member r r' h
    rw [Ring.undisturbed, List.mem_singleton] at member
    rwa [member]

theorem pushBackUntil (h : r.Alike r') (deadline : Deadline) (a : α)
    {interludes : List (Interlude α)} (blind : Undisturbed interludes) :
    (Ring.pushBackUntil deadline a interludes r).Alike
      (Ring.pushBackUntil deadline a interludes r') := by
  induction interludes generalizing r r' with
  | nil =>
    unfold Ring.pushBackUntil
    rcases h.tryAdmission with ⟨full, full'⟩ | ⟨s, s', admitted, admitted', alike⟩
    · rw [full, full']
      exact .waiting h
    · rw [admitted, admitted']
      exact alike.published a _
  | cons now later ih =>
    obtain ⟨first, others⟩ := List.forall_mem_cons.mp blind
    unfold Ring.pushBackUntil
    rcases h.tryAdmission with ⟨full, full'⟩ | ⟨s, s', admitted, admitted', alike⟩
    · rw [full, full', h.capacity]
      dsimp only
      split
      · exact .returned h _ _
      · exact ih (first _ _ h) others
    · rw [admitted, admitted']
      exact alike.published a _

theorem pushBackWithin (h : r.Alike r') (clock : Clock) (timeout : Timeout) (a : α) :
    (r.pushBackWithin clock timeout a).Alike (r'.pushBackWithin clock timeout a) := by
  unfold Ring.pushBackWithin
  cases timeout.deadline clock 0 with
  | error fault => exact ⟨rfl, h, rfl⟩
  | ok deadline => exact h.pushBackUntil deadline a (undisturbed deadline)

/-! ## Pops -/

theorem popFront (h : r.Alike r') : r.popFront.Alike r'.popFront := by
  unfold Ring.popFront
  rcases h.takeFront with ⟨held, held'⟩ | ⟨a, s, s', taken, taken', alike⟩
  · rw [held, held']
    exact .waiting h
  · rw [taken, taken']
    exact .returned alike _ _

theorem popMany (h : r.Alike r') (limit : Nat) (done : List α) :
    (Ring.popMany done limit r).Alike (Ring.popMany done limit r') := by
  induction limit generalizing done r r' with
  | zero => exact .returned h _ _
  | succ limit ih =>
    unfold Ring.popMany
    rcases h.takeFront with ⟨held, held'⟩ | ⟨a, s, s', taken, taken', alike⟩
    · rw [held, held']
      exact .waiting h
    · rw [taken, taken']
      cases a with
      | none => exact .returned alike _ _
      | some a => exact ih alike _

theorem drain (h : r.Alike r') (limit : Option Nat) : (r.drain limit).Alike (r'.drain limit) := by
  simp only [Ring.drain, h.unreadCount]
  exact h.popMany _ _

theorem popFrontUntil (h : r.Alike r') (deadline : Deadline) {interludes : List (Interlude α)}
    (blind : Undisturbed interludes) :
    (Ring.popFrontUntil deadline interludes r).Alike
      (Ring.popFrontUntil deadline interludes r') := by
  induction interludes generalizing r r' with
  | nil =>
    unfold Ring.popFrontUntil
    rcases h.takeFront with ⟨held, held'⟩ | ⟨a, s, s', taken, taken', alike⟩
    · rw [held, held']
      exact .waiting h
    · rw [taken, taken']
      cases a with
      | none => exact .waiting alike
      | some a => exact .returned alike _ _
  | cons now later ih =>
    obtain ⟨first, others⟩ := List.forall_mem_cons.mp blind
    unfold Ring.popFrontUntil
    rcases h.takeFront with ⟨held, held'⟩ | ⟨a, s, s', taken, taken', alike⟩
    · rw [held, held']
      exact .waiting h
    · rw [taken, taken']
      cases a with
      | some a => exact .returned alike _ _
      | none =>
        dsimp only
        rw [alike.capacity]
        split
        · exact .returned alike _ _
        · exact ih (first _ _ alike) others

theorem popFrontWithin (h : r.Alike r') (clock : Clock) (timeout : Timeout) :
    (r.popFrontWithin clock timeout).Alike (r'.popFrontWithin clock timeout) := by
  unfold Ring.popFrontWithin
  cases timeout.deadline clock 0 with
  | error fault => exact ⟨rfl, h, rfl⟩
  | ok deadline => exact h.popFrontUntil deadline (undisturbed deadline)

/-! ## Looking at the front -/

theorem peek (h : r.Alike r') (look : α → Except Fault β) : (r.peek look).Alike (r'.peek look) := by
  unfold Ring.peek
  rcases h.pin with ⟨held, held'⟩ | ⟨position, s, s', pinned, pinned', alike⟩
  · rw [held, held']
    exact .waiting h
  · rw [pinned, pinned']
    dsimp only
    rw [alike.visible, alike.entry]
    have unpinned := alike.unpin position
    split
    · exact .returned unpinned _ _
    · split
      · exact .returned unpinned _ _
      · split
        · exact .returned unpinned _ _
        · exact ⟨rfl, unpinned, rfl⟩

theorem peekClone (h : r.Alike r') (cloning : Cloning α) :
    (r.peekClone cloning).Alike (r'.peekClone cloning) := by
  refine (h.peek (cloning.copy 0)).andThen fun copy r r' h => ?_
  cases copy with
  | none => exact .returned h _ _
  | some copy => exact .returned h _ _

/-! ## Whole rings -/

variable (k : EntryKind α)

theorem duplicate (h : r.Alike r') : (r.duplicate k).Alike (r'.duplicate k) := by
  unfold Ring.duplicate
  rcases h.pin with ⟨held, held'⟩ | ⟨position, s, s', pinned, pinned', alike⟩
  · rw [held, held']
    exact .waiting h
  · rw [pinned, pinned', h.capacity]
    simp only [alike.visible, alike.entry]
    have unpinned := alike.unpin position
    split
    · exact ⟨rfl, unpinned, rfl⟩
    · exact .returned unpinned _ _

theorem reserve (h : r.Alike r') (capacity : Nat) : (r.reserve k capacity).Alike
    (r'.reserve k capacity) := by
  simp only [Ring.reserve, h.capacity, h.unreadBatch, h.unreadCount]
  split
  · exact .returned h _ _
  · split
    · exact ⟨rfl, h, rfl⟩
    · exact .returned (.refl _) _ _

theorem clear (h : r.Alike r') : (r.clear k).Alike (r'.clear k) := by
  simp only [Ring.clear, h.capacity, h.unreadBatch, h.unreadCount]
  split
  · exact ⟨rfl, h, rfl⟩
  · exact .returned (.refl _) _ _

theorem release (h : r.Alike r') : r'.release k = r.release k := by
  simp only [Ring.release, h.capacity, h.unreadBatch]

end Ring.Alike

end RingQueue
