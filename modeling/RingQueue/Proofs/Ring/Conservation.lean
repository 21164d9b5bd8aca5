import Mathlib.Algebra.Order.Group.Multiset
import Mathlib.Tactic.Abel
import RingQueue.PolicyQueue
import RingQueue.Proofs.Ring.Endings
import RingQueue.Proofs.Ring.Whole

/-!
Calls on a ring neither lose nor double an entry.

A call that is over has put each entry that the ring held, that it was given or that it cloned into
exactly one place: the ring, the caller's hands, or the log of dropped entries (`Call.Conserves`).
Each kind of call has one lemma. What it cloned are clones of unread entries (`Call.Clones`).
-/
namespace RingQueue

variable {α β γ : Type}

/-! ## The log -/

namespace Effect

@[simp] theorem drops_nil : drops ([] : List (Effect α)) = [] := rfl

@[simp] theorem clones_nil : clones ([] : List (Effect α)) = [] := rfl

@[simp] theorem drops_dropped (entries : Batch α) (log : List (Effect α)) :
    drops (.dropped entries :: log) = entries.toList ++ drops log := rfl

@[simp] theorem clones_dropped (entries : Batch α) (log : List (Effect α)) :
    clones (.dropped entries :: log) = clones log := rfl

@[simp] theorem drops_cloned (copies : Batch α) (log : List (Effect α)) :
    drops (.cloned copies :: log) = drops log := rfl

@[simp] theorem clones_cloned (copies : Batch α) (log : List (Effect α)) :
    clones (.cloned copies :: log) = copies.toList ++ clones log := rfl

@[simp] theorem drops_reported (event : Event) (log : List (Effect α)) :
    drops (.reported event :: log) = drops log := rfl

@[simp] theorem clones_reported (event : Event) (log : List (Effect α)) :
    clones (.reported event :: log) = clones log := rfl

@[simp] theorem drops_drop? (a : Option α) : drops (drop? a) = a.toList := by
  cases a <;> rfl

@[simp] theorem clones_drop? (a : Option α) : clones (drop? a) = [] := by
  cases a <;> rfl

end Effect

@[simp] theorem EntryKind.drops_allocate (k : EntryKind α) (capacity : Nat) :
    Effect.drops (k.allocate capacity) = [] := by
  unfold allocate
  split <;> rfl

@[simp] theorem EntryKind.clones_allocate (k : EntryKind α) (capacity : Nat) :
    Effect.clones (k.allocate capacity) = [] := by
  unfold allocate
  split <;> rfl

@[simp] theorem EntryKind.drops_free (k : EntryKind α) (capacity : Nat) :
    Effect.drops (k.free capacity) = [] := by
  unfold free
  split <;> rfl

@[simp] theorem EntryKind.clones_free (k : EntryKind α) (capacity : Nat) :
    Effect.clones (k.free capacity) = [] := by
  unfold free
  split <;> rfl

@[simp] theorem Ring.toList_unreadBatch (r : Ring α) : r.unreadBatch.toList = r.unread := rfl

/-! ## Conservation -/

/-- What a call hands out, if it returns. -/
def Call.handed (out : β → List α) (made : Call α β) : List α :=
  match made.outcome with
  | .returned value => out value
  | _ => []

/-- What the ring held, what the call was given and what it cloned is in the ring that it leaves,
has been handed out or has been dropped, each entry once. -/
structure Call.Conserves (made : Call α β) (r : Ring α) (given : List α) (out : β → List α)
    (reserved : Nat) : Prop where
  rest : ∃ c entries, made.ring.Holds c entries reserved
  balance : (r.unread + given + Effect.clones made.effects : Multiset α) =
    made.ring.unread + made.handed out + Effect.drops made.effects

/-- A call that returned conserves entries if this result balances the contents before and after. -/
theorem Call.Conserves.returned {r r' : Ring α} {value : β} {log : List (Effect α)}
    {out : β → List α} {given left : List α} {c reserved : Nat} (holds : r'.Holds c left reserved)
    (balance : (r.unread + given + Effect.clones log : Multiset α) =
      left + out value + Effect.drops log) :
    (Call.returned value r' log).Conserves r given out reserved where
  rest := ⟨c, left, holds⟩
  balance := by
    change _ = (r'.unread : Multiset α) + _ + _
    rw [holds.unread]
    exact balance

/-- A call that leaves the ring as it was hands out what it was given. -/
theorem Call.Conserves.unchanged {r : Ring α} {value : β} {log : List (Effect α)} {out : β → List α}
    {given entries : List α} {c reserved : Nat} (holds : r.Holds c entries reserved)
    (same : out value = given) (drops : Effect.drops log = []) (clones : Effect.clones log = []) :
    (Call.returned value r log).Conserves r given out reserved := by
  refine .returned holds ?_
  rw [holds.unread, same, drops, clones]

theorem Call.Conserves.aborted {r r' : Ring α} {fault : Fault} {log : List (Effect α)}
    {out : β → List α} {given left : List α} {c reserved : Nat} (holds : r'.Holds c left reserved)
    (balance : (r.unread + given + Effect.clones log : Multiset α) = left + Effect.drops log) :
    Call.Conserves ⟨.aborted fault, r', log⟩ r given out reserved where
  rest := ⟨c, left, holds⟩
  balance := by
    change _ = (r'.unread : Multiset α) + 0 + _
    rw [holds.unread, add_zero]
    exact balance

theorem Call.Conserves.map {made : Call α β} {r : Ring α} {given : List α} {f : β → γ}
    {out : γ → List α} {reserved : Nat}
    (conserves : made.Conserves r given (fun value => out (f value)) reserved) :
    (made.map f).Conserves r given out reserved := by
  obtain ⟨outcome, ring, effects⟩ := made
  cases outcome <;> exact ⟨conserves.rest, conserves.balance⟩

/-- An entry that makes way is in the hands of the push for which it does. -/
def Room.handed : Room α → List α
  | .denied => []
  | .granted evicted => evicted.toList

/-- A request that is granted turns room into an admission. -/
theorem Ring.Requested.conserves {r ring : Ring α} {c reserved : Nat} {entries : List α}
    {policy : OverflowPolicy} {evicted : Option α} {effects : List (Effect α)}
    (h : r.Holds c entries reserved)
    (requested : r.Requested c entries reserved policy
      (.returned (.granted evicted) ring effects)) :
    (Call.returned (Room.granted evicted) ring effects).Conserves r [] Room.handed
      (reserved + 1) := by
  cases requested with
  | room room holds =>
    refine .returned holds ?_
    rw [h.unread]
    simp [Room.handed]
  | evicting kind contents full holds =>
    refine .returned holds ?_
    rw [h.unread, contents]
    simp [Room.handed, ← Multiset.cons_coe, ← Multiset.singleton_add, add_comm]

theorem Ring.Requested.evicted_eq_none {r ring : Ring α} {c reserved : Nat} {entries : List α}
    {policy : OverflowPolicy} {evicted : Option α} {effects : List (Effect α)}
    (requested : r.Requested c entries reserved policy (.returned (.granted evicted) ring effects))
    (kind : policy ≠ .overwrite) : evicted = none := by
  cases requested with
  | room => rfl
  | evicting overwrite => exact absurd overwrite kind

namespace Ring.Holds

variable {r : Ring α} {c reserved : Nat} {entries : List α}

/-! ## Pushes -/

/-- A push gives its value back when it is denied, and hands out the entry that made way for it. -/
theorem push_conserves (h : r.Holds c entries reserved) {policy : OverflowPolicy} {a : α}
    {out : Pushed α → List α} (denied : policy = .reject → out .denied = [a])
    (stored : out (.stored none) = [])
    (replaced : ∀ oldest, policy = .overwrite → out (.stored (some oldest)) = [oldest])
    (finished : (r.push policy a).outcome ≠ .waiting) :
    (r.push policy a).Conserves r [a] out reserved := by
  have pushing := h.pushing policy a
  have contents := h.unread
  generalize r.push policy a = made at pushing finished ⊢
  cases pushing with
  | stored room holds =>
    refine .returned holds ?_
    rw [contents, stored]
    simp [← Multiset.coe_add]
  | denied kind full => exact .unchanged h (denied kind) rfl rfl
  | @replaced oldest rest _ kind split full holds =>
    refine .returned holds ?_
    rw [contents, replaced oldest kind, split]
    simp [← Multiset.coe_add, ← Multiset.cons_coe, ← Multiset.singleton_add]
    abel
  | waiting => exact absurd rfl finished

/-- What a policy push leaves over is dropped. -/
theorem pushUnder_conserves (h : r.Holds c entries reserved) {k : EntryKind α}
    (drops : k.dropFails = none) {policy : OverflowPolicy} {a : α}
    (finished : (r.pushUnder k policy a).outcome ≠ .waiting) :
    (r.pushUnder k policy a).Conserves r [a] (fun _ => []) reserved := by
  have pushing := h.pushing policy a
  have contents := h.unread
  unfold pushUnder at finished ⊢
  generalize r.push policy a = made at pushing finished ⊢
  cases pushing with
  | stored room holds =>
    rw [Call.andThen_returned, report_stored, returnAfterDrop_eq drops, Call.after_returned]
    refine .returned holds ?_
    rw [contents]
    simp [← Multiset.coe_add]
  | denied kind full =>
    rw [Call.andThen_returned, report_denied, returnAfterDrop_eq drops, Call.after_returned]
    refine .returned h ?_
    rw [contents]
    simp
  | replaced kind split full holds =>
    rw [Call.andThen_returned, report_stored, returnAfterDrop_eq drops, Call.after_returned]
    refine .returned holds ?_
    rw [contents, split]
    simp [← Multiset.coe_add, ← Multiset.cons_coe, ← Multiset.singleton_add]
    abel
  | waiting => exact absurd rfl finished

/-- The end of a push settles its own entry and the one that made way for it. -/
theorem settle_conserves (h : r.Holds c entries (reserved + 1)) (evicted : Option α)
    (made : Except Fault α) {out : Pushed α → List α}
    (stored : out (.stored evicted) = evicted.toList) : (r.settle evicted made).Conserves r
    (evicted.toList ++ made.toOption.toList) out reserved := by
  have contents := h.unread
  cases made with
  | ok a =>
    obtain ⟨r', settled, holds⟩ := h.settle_made evicted a
    rw [settled]
    refine .returned holds ?_
    rw [contents, stored]
    simp [Except.toOption, ← Multiset.coe_add]
    abel
  | error fault =>
    refine .aborted h.returnAdmission ?_
    rw [contents]
    simp [Except.toOption]

theorem settle_report_conserves (h : r.Holds c entries (reserved + 1)) {k : EntryKind α}
    (drops : k.dropFails = none) (evicted : Option α) (made : Except Fault α) :
    ((r.settle evicted made).andThen (report k none)).Conserves r
      (evicted.toList ++ made.toOption.toList) (fun _ => []) reserved := by
  have contents := h.unread
  cases made with
  | ok a =>
    obtain ⟨r', settled, holds⟩ := h.settle_made evicted a
    rw [settled, Call.andThen_returned, report_stored, returnAfterDrop_eq drops,
      Call.after_returned]
    refine .returned holds ?_
    rw [contents]
    simp [Except.toOption, ← Multiset.coe_add]
    abel
  | error fault =>
    change Call.Conserves ⟨.aborted fault, r.returnAdmission, Effect.drop? evicted⟩ _ _ _ _
    refine .aborted h.returnAdmission ?_
    rw [contents]
    simp [Except.toOption]

theorem pushBackWithin_conserves (h : r.Holds c entries reserved) {clock : Clock}
    {timeout : Timeout} {a : α} {out : Except α Unit → List α} (refused : out (.error a) = [a])
    (stored : out (.ok ()) = [])
    (finished : (r.pushBackWithin clock timeout a).outcome ≠ .waiting) :
    (r.pushBackWithin clock timeout a).Conserves r [a] out reserved := by
  have contents := h.unread
  have pushed := h.pushedWithin clock timeout a
  generalize r.pushBackWithin clock timeout a = made at pushed finished ⊢
  cases pushed with
  | late fault =>
    refine .aborted h ?_
    rw [contents]
    simp
  | stored holds =>
    refine .returned holds ?_
    rw [contents, stored]
    simp [← Multiset.coe_add]
  | timedOut full => exact .unchanged h refused rfl rfl
  | waiting full => exact absurd rfl finished

/-! ## Pops -/

theorem popFront_conserves (h : r.Holds c entries reserved) {out : Option α → List α}
    (entry : ∀ a, out a = a.toList) : r.popFront.Conserves r [] out reserved := by
  have contents := h.unread
  cases entries with
  | nil =>
    rw [h.popFront_nil]
    exact .unchanged h (entry none) rfl rfl
  | cons a rest =>
    obtain ⟨r', popped, holds⟩ := h.popFront_cons
    rw [popped]
    refine .returned holds ?_
    rw [contents, entry]
    simp [← Multiset.cons_coe, ← Multiset.singleton_add]
    abel

theorem drain_conserves (h : r.Holds c entries reserved) (limit : Option Nat)
    {out : List α → List α} (same : ∀ as, out as = as) : (r.drain limit).Conserves r [] out
    reserved := by
  obtain ⟨r', drained, holds⟩ := h.drain limit
  rw [drained]
  refine .returned holds ?_
  -- Those handed out and those left make up what there was.
  have parts := List.take_append_drop (limit.getD entries.length) entries
  rw [h.unread, same, ← congrArg Multiset.ofList parts, ← Multiset.coe_add]
  simp [add_comm]

theorem popFrontWithin_conserves (h : r.Holds c entries reserved) {clock : Clock}
    {timeout : Timeout} {out : Option α → List α} (entry : ∀ a, out a = a.toList)
    (finished : (r.popFrontWithin clock timeout).outcome ≠ .waiting) :
    (r.popFrontWithin clock timeout).Conserves r [] out reserved := by
  have contents := h.unread
  have popped := h.poppedWithin clock timeout
  generalize r.popFrontWithin clock timeout = made at popped finished ⊢
  cases popped with
  | late fault =>
    refine .aborted h ?_
    rw [contents]
    simp
  | popped split holds =>
    refine .returned holds ?_
    rw [contents, entry, split]
    simp [← Multiset.cons_coe, ← Multiset.singleton_add]
    abel
  | timedOut empty => exact .unchanged h (entry none) rfl rfl
  | waiting empty => exact absurd rfl finished

theorem peekClone_conserves (h : r.Holds c entries reserved) (cloning : Cloning α)
    {out : Option α → List α} (entry : ∀ a, out a = a.toList) :
    (r.peekClone cloning).Conserves r [] out reserved := by
  have contents := h.unread
  rw [h.serves.peekClone]
  split
  · exact .unchanged h (entry none) rfl rfl
  · split
    · refine .returned h ?_
      rw [contents, entry]
      simp
    · refine .aborted h ?_
      rw [contents]
      simp

/-! ## Whole rings -/

theorem unreadBatch_full (h : r.Holds c entries reserved) : r.unreadBatch.Full := by
  intro i hi
  have slot := h.slots i
  have fits := h.fits
  simp only [unreadBatch, h.unreadCount, h.front] at hi ⊢
  rw [slot (by omega), List.getElem?_eq_getElem hi]
  rfl

theorem unreadBatch_fits (h : r.Holds c entries reserved) : r.unreadBatch.count ≤ c := by
  have fits := h.fits
  simp only [unreadBatch, h.unreadCount]
  omega

/-- A duplicate is made from clones of the unread entries, while the ring itself stays as it is. -/
theorem duplicate_eq (h : r.Holds c entries reserved) (k : EntryKind α) :
    r.duplicate k =
      let clones := k.cloning.cloneAll r.unreadBatch
      match clones.fault with
      | some fault => ⟨.aborted fault, r, [.cloned clones.made, .dropped clones.made]⟩
      | none => .returned (ofBatch c clones.made) r
          ([.cloned clones.made] ++ k.allocate c ++ [.reported (.ringCreated c)]) := by
  obtain ⟨pinned, unpinned⟩ := h.pin
  obtain rfl := h.capacity
  have unread : (⟨r.visible - r.freed, fun i => r.entry (r.freed + i)⟩ : Batch α) =
    r.unreadBatch := by
    simp only [unreadBatch, Ring.unreadCount, h.front]
  rw [← unread]
  simp only [duplicate, pinned, unpinned]
  rfl

/-- The clones that a duplicate holds, or those that are dropped when one of them fails, are all
that is new. -/
theorem duplicate_conserves (h : r.Holds c entries reserved) (k : EntryKind α) :
    (r.duplicate k).Conserves r [] Ring.unread reserved ∧
      ∀ ring, (r.duplicate k).outcome = .returned ring → ∃ copies, ring.Holds c copies 0 := by
  have fits := h.unreadBatch_fits
  rw [h.duplicate_eq k]
  dsimp only
  cases failed : (k.cloning.cloneAll r.unreadBatch).fault with
  | some fault =>
    refine ⟨.aborted h ?_, by intro ring returned; cases returned⟩
    rw [h.unread]
    simp
  | none =>
    obtain ⟨madeFull, madeCount⟩ := k.cloning.cloneAll_all h.unreadBatch_full failed
    have holds := holds_ofBatch (c := c) madeFull (by omega)
    refine ⟨.returned h ?_, ?_⟩
    · rw [h.unread, holds.unread]
      simp
    · rintro ring ⟨⟩
      exact ⟨_, holds⟩

theorem reserve_conserves (h : r.Holds c entries 0) (k : EntryKind α) (capacity : Nat)
    {out : Unit → List α} (nothing : out () = []) :
    (r.reserve k capacity).Conserves r [] out 0 := by
  unfold reserve
  split
  · exact .unchanged h nothing rfl rfl
  · rename_i larger
    cases k.checkSlots capacity with
    | error fault =>
      refine .aborted h ?_
      rw [h.unread]
      simp
    | ok _ =>
      have fits := h.unreadBatch_fits
      have slots := h.capacity
      refine .returned (holds_ofBatch h.unreadBatch_full (by omega)) ?_
      -- The entries move; none is cloned or dropped.
      rw [nothing]
      simp

theorem clear_conserves (_ : r.Holds c entries 0) {k : EntryKind α} (drops : k.dropFails = none)
    {out : Unit → List α} (nothing : out () = []) : (r.clear k).Conserves r [] out 0 := by
  unfold clear
  simp only [k.dropAll_eq drops]
  refine .returned (holds_empty r.capacity) ?_
  rw [nothing]
  simp

end Ring.Holds

/-! ## Clones -/

/-- Each of the copies is a clone that was made of one of the originals. -/
def Cloning.Makes (cloning : Cloning α) (originals copies : Multiset α) : Prop :=
  ∀ b ∈ copies, ∃ a ∈ originals, ∃ before, cloning.copy before a = .ok b

namespace Cloning.Makes

variable {cloning : Cloning α} {originals others copies more : Multiset α}

theorem nothing (cloning : Cloning α) (originals : Multiset α) : cloning.Makes originals 0 := by
  intro b member
  exact absurd member (Multiset.notMem_zero b)

theorem of_subset (makes : cloning.Makes originals copies) (within : originals ⊆ others) :
    cloning.Makes others copies := by
  intro b member
  obtain ⟨a, present, before, made⟩ := makes b member
  exact ⟨a, within present, before, made⟩

theorem add (makes : cloning.Makes originals copies) (others : cloning.Makes originals more) :
    cloning.Makes originals (copies + more) := by
  intro b member
  rcases Multiset.mem_add.mp member with first | second
  · exact makes b first
  · exact others b second

end Cloning.Makes

/-- All that a call cloned are clones of entries that were unread. -/
def Call.Clones (made : Call α β) (r : Ring α) (cloning : Cloning α) : Prop :=
  cloning.Makes r.unread (Effect.clones made.effects)

theorem Call.Clones.of_nil {made : Call α β} (silent : Effect.clones made.effects = []) (r : Ring α)
    (cloning : Cloning α) : made.Clones r cloning := by
  rw [Call.Clones, silent]
  exact .nothing cloning _

@[simp] theorem OverflowPolicy.clones_waitingLog (policy : OverflowPolicy) (capacity : Nat) :
    Effect.clones (policy.waitingLog capacity : List (Effect α)) = [] := by
  cases policy <;> rfl

namespace Ring.Holds

variable {r : Ring α} {c reserved : Nat} {entries : List α}

theorem push_clones (h : r.Holds c entries reserved) (policy : OverflowPolicy) (a : α) :
    Effect.clones (r.push policy a).effects = [] := by
  have pushing := h.pushing policy a
  generalize r.push policy a = made at pushing
  cases pushing with
  | waiting => exact policy.clones_waitingLog c
  | _ => rfl

theorem pushUnder_clones (h : r.Holds c entries reserved) (k : EntryKind α)
    (policy : OverflowPolicy) (a : α) :
    Effect.clones (r.pushUnder k policy a).effects = [] := by
  have pushing := h.pushing policy a
  unfold pushUnder
  generalize r.push policy a = made at pushing
  cases pushing with
  | waiting => exact policy.clones_waitingLog c
  | _ => simp [report, returnAfterDrop, Call.after]

theorem pushBackWithin_clones (h : r.Holds c entries reserved) (clock : Clock)
    (timeout : Timeout) (a : α) :
    Effect.clones (r.pushBackWithin clock timeout a).effects = [] := by
  have pushed := h.pushedWithin clock timeout a
  generalize r.pushBackWithin clock timeout a = made at pushed
  cases pushed <;> rfl

theorem popFrontWithin_clones (h : r.Holds c entries reserved) (clock : Clock) (timeout : Timeout) :
    Effect.clones (r.popFrontWithin clock timeout).effects = [] := by
  have popped := h.poppedWithin clock timeout
  generalize r.popFrontWithin clock timeout = made at popped
  cases popped <;> rfl

theorem popFront_clones (h : r.Holds c entries reserved) :
    Effect.clones r.popFront.effects = [] := by
  cases entries with
  | nil => rw [h.popFront_nil]; rfl
  | cons a rest =>
    obtain ⟨r', popped, -⟩ := h.popFront_cons
    rw [popped]
    rfl

theorem drain_clones (h : r.Holds c entries reserved) (limit : Option Nat) :
    Effect.clones (r.drain limit).effects = [] := by
  obtain ⟨r', drained, -⟩ := h.drain limit
  rw [drained]
  rfl

theorem peekClone_clones (h : r.Holds c entries reserved) (cloning : Cloning α) :
    (r.peekClone cloning).Clones r cloning := by
  rw [Call.Clones, h.serves.peekClone]
  split
  · exact .nothing cloning _
  · rename_i a first
    split
    · rename_i copy made
      intro b member
      obtain rfl : b = copy := by simpa [Call.returned] using member
      refine ⟨a, ?_, 0, made⟩
      rw [h.unread]
      exact List.mem_of_mem_head? first
    · exact .nothing cloning _

theorem duplicate_clones (h : r.Holds c entries reserved) (k : EntryKind α) :
    (r.duplicate k).Clones r k.cloning := by
  have clones : Effect.clones (r.duplicate k).effects =
    (k.cloning.cloneAll r.unreadBatch).made.toList := by
    rw [h.duplicate_eq k]
    dsimp only
    split <;> simp [Call.returned]
  rw [Call.Clones, clones]
  intro b member
  exact Cloning.mem_cloneAll member

end Ring.Holds

theorem Ring.Requested.clones_eq_nil {r r' : Ring α} {c reserved : Nat} {entries : List α}
    {policy : OverflowPolicy} {room : Room α} {log : List (Effect α)}
    (requested : Ring.Requested r c entries reserved policy (.returned room r' log)) :
    Effect.clones log = [] := by
  cases requested <;> rfl

theorem Ring.settle_clones (evicted : Option α) (made : Except Fault α) (r : Ring α) :
    Effect.clones (r.settle evicted made).effects = [] := by
  cases made with
  | ok a =>
    rw [settle]
    cases r.publish a <;> rfl
  | error fault => exact Effect.clones_drop? evicted

theorem Ring.settle_report_clones (k : EntryKind α) (evicted : Option α) (made : Except Fault α)
    (r : Ring α) :
    Effect.clones ((r.settle evicted made).andThen (report k none)).effects = [] := by
  cases made with
  | ok a =>
    rw [settle]
    cases r.publish a with
    | none => rfl
    | some r' => exact Effect.clones_drop? evicted
  | error fault => exact Effect.clones_drop? evicted

theorem Ring.reserve_clones (k : EntryKind α) (capacity : Nat) (r : Ring α) :
    Effect.clones (r.reserve k capacity).effects = [] := by
  unfold reserve
  split
  · rfl
  · split <;> simp [Call.returned]

theorem Ring.clear_clones (k : EntryKind α)
    (r : Ring α) : Effect.clones (r.clear k).effects = [] := by
  unfold clear
  dsimp only
  split <;> simp [Call.returned]

/-- The clones that fill a ring are made of the entry that was given. -/
theorem Ring.filled_clones (k : EntryKind α) (capacity : Nat) (a : α) :
    k.cloning.Makes {a} (Effect.clones (filled k capacity a).effects) := by
  have clones : Effect.clones (filled k capacity a).effects = [] ∨
      Effect.clones (filled k capacity a).effects =
        (k.cloning.cloneAll (.replicate (capacity - 1) a)).made.toList := by
    unfold filled
    split
    · exact .inl rfl
    · dsimp only
      split <;> exact .inr (by simp)
  rcases clones with none_made | all
  · rw [none_made]
    exact .nothing _ _
  · rw [all]
    intro b member
    obtain ⟨original, present, before, made⟩ := Cloning.mem_cloneAll member
    rw [Batch.toList_replicate] at present
    exact ⟨original, Multiset.mem_singleton.mpr (List.eq_of_mem_replicate present), before, made⟩

/-- A ring that is cleared, or that is released, drops its entries in the order in which pops would
have handed them out. -/
theorem Ring.Holds.drops_oldest_first {r : Ring α} {c reserved : Nat} {entries : List α}
    (h : r.Holds c entries reserved) {k : EntryKind α} (drops : k.dropFails = none) :
    Effect.drops (r.clear k).effects = entries ∧ Effect.drops (r.release k).2 = entries ∧
      (r.drain none).outcome = .returned entries := by
  obtain ⟨r', drained, -⟩ := h.drain none
  refine ⟨?_, ?_, ?_⟩
  · simp [clear, k.dropAll_eq drops, h.unread, Call.returned]
  · simp [release, k.dropAll_eq drops, h.unread]
  · rw [drained]
    simp [Call.returned]

/-! ## New rings -/

/-- The entries of a new ring, if it could be built. -/
def Built.kept (ring : β → Ring α) (built : Built α β) : List α :=
  match built.result with
  | .ok b => (ring b).unread
  | .error _ => []

/-- What was given and cloned is in the ring that has been built, if there is one, or has been
dropped. -/
structure Built.Conserves (built : Built α β) (ring : β → Ring α) (given : List α) : Prop where
  rest : ∀ b, built.result = .ok b → ∃ c entries, (ring b).Holds c entries 0
  balance : (given + Effect.clones built.effects : Multiset α) =
    built.kept ring + Effect.drops built.effects

theorem Built.Conserves.failed {fault : Fault} {log : List (Effect α)} {ring : β → Ring α}
    {given : List α} (balance : (given + Effect.clones log : Multiset α) = Effect.drops log) :
    Built.Conserves ⟨.error fault, log⟩ ring given where
  rest := nofun
  balance := by
    change _ = 0 + (Effect.drops log : Multiset α)
    rw [zero_add]
    exact balance

theorem Built.Conserves.made {b : β} {log : List (Effect α)} {ring : β → Ring α} {c : Nat}
    {given entries : List α} (holds : (ring b).Holds c entries 0)
    (balance : (given + Effect.clones log : Multiset α) = entries + Effect.drops log) :
    Built.Conserves ⟨.ok b, log⟩ ring given where
  rest := by
    rintro _ ⟨⟩
    exact ⟨c, entries, holds⟩
  balance := by
    change _ = ((ring b).unread : Multiset α) + _
    rw [holds.unread]
    exact balance

theorem Built.Conserves.map {built : Built α β} {given : List α} {f : β → γ} {ring : γ → Ring α}
    (conserves : built.Conserves (fun b => ring (f b)) given) :
    (built.map f).Conserves ring given := by
  obtain ⟨result, effects⟩ := built
  cases result with
  | error fault => exact .failed (by simpa [kept] using conserves.balance)
  | ok b =>
    obtain ⟨c, entries, holds⟩ := conserves.rest b rfl
    refine .made holds ?_
    rw [← holds.unread]
    exact conserves.balance

theorem Built.Conserves.reported {built : Built α β} {given : List α} {ring : β → Ring α}
    (conserves : built.Conserves ring given) (event : Event) :
    Built.Conserves ⟨built.result, .reported event :: built.effects⟩ ring given :=
  ⟨conserves.rest, conserves.balance⟩

namespace Ring

theorem create_conserves (k : EntryKind α) (capacity : Nat) :
    (create k capacity).Conserves id [] := by
  unfold create
  cases k.checkSlots capacity with
  | error fault => exact .failed rfl
  | ok _ => exact .made (holds_empty capacity) (by simp)

/-- Nothing is lost while a ring is filled, unless a clone fails. -/
theorem filled_conserves (k : EntryKind α) (capacity : Nat) (a : α)
    (sound : k.checkSlots capacity = .ok () →
      (k.cloning.cloneAll (.replicate (capacity - 1) a)).fault = none) :
    (filled k capacity a).Conserves id [a] := by
  unfold filled
  cases accepted : k.checkSlots capacity with
  | error fault => exact .failed rfl
  | ok _ =>
    have sound := sound accepted
    have positive := ((k.checkSlots_eq_ok_iff capacity).mp accepted).1
    obtain ⟨full, count⟩ := k.cloning.cloneAll_all (Batch.full_replicate (capacity - 1) a) sound
    simp only [sound]
    refine .made (holds_ofBatch (fillBatch_full full count a) (Nat.le_refl _)) ?_
    change _ = ((fillBatch capacity _ a).toList : Multiset α) + _
    rw [toList_fillBatch positive full count]
    simp [← Multiset.coe_add, add_comm]

end Ring

theorem PolicyQueue.create_conserves (k : EntryKind α) (capacity : Nat) (policy : Policy) :
    (create k capacity policy).Conserves PolicyQueue.ring [] :=
  .map (Ring.create_conserves k capacity)

end RingQueue
