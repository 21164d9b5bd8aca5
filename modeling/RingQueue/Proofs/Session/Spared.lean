import RingQueue.Proofs.Ring.Clearing
import RingQueue.Proofs.Session.Histories

/-!
Steps during which no entry breaks off while it is dropped.

What steps drop can be read off their answers. Where none of it breaks off, they go as they would
with entries that can always be dropped (`Step.runAll_spared`), so that whatever is known of those
holds for them.
-/
namespace RingQueue

variable {α β : Type}

/-! ## Entries -/

namespace EntryKind.CanDrop

variable {k : EntryKind α}

/-- An entry that breaks off is itself among those that were dropped. -/
theorem of_dropped {entries : Batch α} (full : entries.Full)
    (spared : k.CanDrop (k.dropAll entries).dropped.toList) : k.CanDrop entries.toList := by
  rcases k.canDrop_or_breaksOffAt entries.toList with drops | ⟨before, a, behind, breaks⟩
  · exact drops
  · obtain ⟨batch, dropped, dropAll⟩ := breaks.dropAll full
    obtain ⟨fails, known, here⟩ := breaks.fails
    rw [dropAll, dropped] at spared
    have sound := spared fails known a (by simp)
    exact absurd (here.symm.trans sound) nofun

theorem append_iff {before after : List α} :
    k.CanDrop (before ++ after) ↔ k.CanDrop before ∧ k.CanDrop after := by
  simp only [CanDrop, List.forall_mem_append]
  exact ⟨fun both => ⟨fun fails known => (both fails known).1,
    fun fails known => (both fails known).2⟩,
    fun each fails known => ⟨each.1 fails known, each.2 fails known⟩⟩

end EntryKind.CanDrop

namespace Session

variable {setup : Setup α}

/-! ## Calls -/

/-- A call on a ring that drops entries at most in the way of its setup. -/
def Spares (made : Setup α → Call α β) (setup : Setup α) : Prop :=
  setup.kind.CanDrop (Effect.drops (made setup).effects) → made setup.droppable = made setup

theorem Spares.map {made : Setup α → Call α β} {γ : Type} (spares : Spares made setup) (f : β → γ) :
    Spares (fun setup => (made setup).map f) setup :=
  fun spared => congrArg (Call.map f) (spares spared)

theorem spares_report (turnedDown : Option α) (pushed : Pushed α) (r : Ring α) :
    Spares (fun setup => Ring.report setup.kind turnedDown pushed r) setup := by
  have returned {γ : Type} (a : Option α) (value : γ) :
      Spares (fun setup => r.returnAfterDrop setup.kind a value) setup := by
    intro spared
    cases a with
    | none => rfl
    | some a =>
      have all : setup.kind.dropAll (.single a) = ⟨.single a, none⟩ :=
        EntryKind.CanDrop.dropAll (by simpa [Ring.returnAfterDrop, Effect.drop?] using spared)
      have fault : setup.kind.dropFault a = none := by rw [EntryKind.dropFault, all]
      simp only [Ring.returnAfterDrop, Option.bind_some, fault]
      rfl
  cases pushed with
  | denied => exact returned turnedDown _
  | stored evicted => exact returned evicted _

theorem spares_andThen_report (turnedDown : Option α) (made : Call α (Pushed α)) :
    Spares (fun setup => made.andThen (Ring.report setup.kind turnedDown)) setup := by
  obtain ⟨outcome, ring, effects⟩ := made
  intro spared
  cases outcome with
  | returned pushed =>
    simp only [Call.andThen, Effect.drops_append, EntryKind.CanDrop.append_iff] at spared ⊢
    have same := spares_report turnedDown pushed ring spared.2
    dsimp only at same
    rw [same]
  | aborted | waiting => rfl

theorem spares_clear {r : Ring α} {c reserved : Nat} {entries : List α}
    (holds : r.Holds c entries reserved) : Spares (fun setup => r.clear setup.kind) setup := by
  intro spared
  have drops : setup.kind.CanDrop r.unreadBatch.toList := by
    refine .of_dropped holds.unreadBatch_full ?_
    cases fault : (setup.kind.dropAll r.unreadBatch).fault <;>
      simpa [Ring.clear, fault, Call.returned] using spared
  simp only [Ring.clear, drops.dropAll]
  rfl

/-- Whatever action makes the call. -/
theorem Action.call?_spares {c : Channel α} {role : Role} {capacity reserved : Nat}
    {entries : List α} (holds : c.ring.Holds capacity entries reserved) {action : Action α}
    {made : Setup α → Call α (Result α)}
    (call : ∀ setup, action.call? setup c role = some (made setup)) : Spares made setup := by
  have is {other : Setup α → Call α (Result α)} (spares : Spares other setup)
      (same : ∀ setup, action.call? setup c role = some (other setup)) : Spares made setup := by
    have made_eq : made = other :=
      funext fun setup => Option.some.inj ((call setup).symm.trans (same setup))
    rwa [made_eq]
  cases action with
  | push terms value =>
    cases terms with
    | asked policy => exact is (fun _ => rfl) fun _ => rfl
    | configured =>
      exact is ((spares_andThen_report (some value) (c.ring.push c.overflowPolicy value)).map
        .pushed) fun _ => rfl
  | clear => exact is ((spares_clear holds).map fun _ => .done) fun _ => rfl
  | front =>
    by_cases owner : role = .owner
    · exact absurd (call setup) (by simp [Action.call?, owner])
    · exact is (fun _ => rfl) fun _ => if_neg owner
  | exclusive operation =>
    by_cases sole : c.isSole
    · refine is ?_ fun _ => if_pos sole
      cases operation with
      | clear =>
        have clears : Spares (fun setup => c.ring.clear setup.kind) setup := spares_clear holds
        exact (clears.map fun _ => ExclusiveResult.done).map _
      | _ => exact fun _ => rfl
    · exact absurd (call setup) (by simp [Action.call?, sole])
  | pushWithin | popFront | popWithin | read | readWithin | drain | reserve =>
    exact is (fun _ => rfl) fun _ => rfl
  | _ => cases call setup

/-! ## Handles that are given up -/

/-- All rings hold something. -/
def AtRest (channels : List (Channel α)) : Prop :=
  ∀ c ∈ channels, ∃ capacity entries reserved, c.ring.Holds capacity entries reserved

theorem Consistent.atRest {channels : List (Channel α)} (consistent : Consistent channels) :
    AtRest channels := by
  intro c member
  obtain ⟨capacity, entries, holds⟩ := (consistent.each c member).rest
  exact ⟨capacity, entries, _, holds⟩

theorem release_spared {r : Ring α} {c reserved : Nat} {entries : List α}
    (holds : r.Holds c entries reserved)
    (spared : setup.kind.CanDrop (Effect.drops (r.release setup.kind).2)) :
    r.release setup.droppable.kind = r.release setup.kind := by
  have drops : setup.kind.CanDrop r.unreadBatch.toList := by
    refine .of_dropped holds.unreadBatch_full ?_
    simpa [Ring.release] using spared
  simp only [Ring.release, drops.dropAll]
  rfl

theorem dropHandle_spared {key : Key} {channels : List (Channel α)} (rest : AtRest channels)
    (spared : setup.kind.CanDrop (Effect.drops (dropHandle setup.kind key channels).effects)) :
    dropHandle setup.droppable.kind key channels = dropHandle setup.kind key channels := by
  induction channels with
  | nil => rfl
  | cons c others ih =>
    obtain ⟨⟨capacity, entries, reserved, holds⟩, later⟩ := List.forall_mem_cons.mp rest
    simp only [dropHandle] at spared ⊢
    split at spared
    · rename_i apart
      rw [if_pos apart, if_pos apart, ih later spared]
    · rename_i reached
      rw [if_neg reached, if_neg reached]
      split at spared
      · rename_i last
        rw [if_pos last, if_pos last, release_spared holds spared]
      · rename_i left
        rw [if_neg left, if_neg left]

theorem dropHandles_spared {names : List String} {channels : List (Channel α)}
    (consistent : Consistent channels)
    (spared : setup.kind.CanDrop (Effect.drops (dropHandles setup.kind names channels).effects)) :
    dropHandles setup.droppable.kind names channels = dropHandles setup.kind names channels := by
  have droppable : setup.droppable.kind.dropFails = none := rfl
  induction names generalizing channels with
  | nil => rfl
  | cons name names ih =>
    simp only [dropHandles, Effect.drops_append, EntryKind.CanDrop.append_iff] at spared ⊢
    have first := dropHandle_spared consistent.atRest spared.1
    have between := ((consistent.but_name name).dropHandle droppable).consistent
    rw [first] at between ⊢
    rw [ih between spared.2]

/-! ## Operations -/

section Operations

variable {s : Session α}

theorem place_spared {channels : List (Channel α)} (consistent : Consistent channels)
    {new : Channel α} {log : List (Effect α)} {result : Result α}
    (spared : setup.kind.CanDrop
      (Effect.drops (s.place setup.kind channels new log result).effects)) :
    s.place setup.droppable.kind channels new log result =
      s.place setup.kind channels new log result := by
  simp only [place, Effect.drops_append, EntryKind.CanDrop.append_iff] at spared ⊢
  rw [dropHandles_spared consistent spared.2]

theorem Sound.create_spared (sound : s.Sound) {name : String} {creation : Creation α}
    (spared : setup.kind.CanDrop (Effect.drops (s.create setup name creation).effects)) :
    s.create setup.droppable name creation = s.create setup name creation := by
  have same : creation.build setup.droppable = creation.build setup := by
    rcases creation with (_ | _) | (_ | _) <;> rfl
  rw [create_eq] at spared
  rw [create_eq, create_eq, same]
  cases made : creation.build setup with
  | error e => rfl
  | ok built =>
    rw [made] at spared
    obtain ⟨fault | new, log⟩ := built
    · rfl
    · exact place_spared sound.consistent spared

/-- Any action. -/
theorem Sound.performed_spared (sound : s.Sound) {name : String} {action : Action α}
    {reply : Setup α → Reply α (Result α)} (performs : Performs s name action reply)
    (spared : setup.kind.CanDrop (Effect.drops (reply setup).effects)) :
    reply setup.droppable = reply setup := by
  have others : Consistent (removeChannel (.name name) s.channels) :=
    sound.consistent.sublist List.filter_sublist
  cases performs with
  | refused | looked | handedOver => rfl
  | called found offered free call =>
    obtain ⟨capacity, entries, holds⟩ :=
      (sound.consistent.each _ (findChannel_eq_some found).1).rest
    dsimp only at spared ⊢
    rw [Action.call?_spares holds call spared]
  | split found owner free producer consumer => exact place_spared others spared
  | dropped found =>
    simp only [Session.drop] at spared ⊢
    rw [dropHandle_spared sound.consistent.atRest spared]
  | clonedProducer found producer new =>
    simp only [Session.cloneProducer] at spared ⊢
    rw [dropHandle_spared others.atRest spared]
  | @clonedQueue c h found owner new =>
    obtain ⟨before, after, at_⟩ := located_of_findChannel sound.consistent.distinct found
    have consistent := sound.duplicated at_ setup.kind
    have same : c.ring.duplicate setup.droppable.kind = c.ring.duplicate setup.kind := rfl
    simp only [Session.cloneQueue, same] at spared ⊢
    cases outcome : (c.ring.duplicate setup.kind).outcome with
    | returned copy =>
      simp only [outcome] at spared ⊢
      exact place_spared consistent spared
    | aborted | waiting => rfl

/-- The end of a push on the ring of its handle. -/
theorem Pending.closing_spares (push : Pending α) (made : Except Fault α) (r : Ring α) :
    Spares (fun setup => push.closing setup.kind made r) setup := by
  unfold closing
  split
  · exact fun _ => rfl
  · exact (spares_andThen_report none (r.settle push.evicted made)).map Result.pushed

/-- While a push ends, all rings are at rest. -/
theorem Sound.closing_atRest (sound : s.Sound) (push : Pending α)
    {c : Channel α} {h : Handle} (found : s.find? (.push push.number) = some (c, h))
    (k : EntryKind α) (made : Except Fault α) :
    AtRest (setRing (.push push.number) (push.closing k made c.ring).ring s.channels) := by
  obtain ⟨before, after, place⟩ := located_of_findChannel sound.consistent.distinct found
  obtain ⟨capacity, entries, holds⟩ := (sound.consistent.each c place.mem).rest
  have distinct : c.keys.Nodup := (List.nodup_flatMap.mp sound.consistent.distinct).1 c place.mem
  rw [← pushCount_without distinct place.here] at holds
  have settled : (c.ring.settle push.evicted made).Conserves c.ring _
      (fun _ => push.evicted.toList) _ := holds.settle_conserves push.evicted made rfl
  obtain ⟨limit, left, rest⟩ := settled.rest
  intro other member
  obtain ⟨old, there, rfl⟩ := List.mem_map.mp member
  split
  · rw [push.closing_ring]
    exact ⟨limit, left, _, rest⟩
  · exact sound.consistent.atRest old there

/-- The end of a push. -/
theorem Sound.endEmplace_spared (sound : s.Sound) {number : Nat} (last : s.pushes = number + 1)
    {terms : Terms} {policy : OverflowPolicy} {evicted : Option α} {made : Except Fault α}
    (spared : setup.kind.CanDrop
      (Effect.drops (s.endEmplace setup number terms policy evicted made).effects)) :
    s.endEmplace setup.droppable number terms policy evicted made =
      s.endEmplace setup number terms policy evicted made := by
  obtain ⟨⟨c, h⟩, found⟩ := findChannel_isSome ((sound.under_way number).mpr (by omega))
  let push : Pending α := ⟨number, terms, policy, evicted⟩
  rw [push.leave_eq made found] at spared
  rw [push.leave_eq made found, push.leave_eq made found]
  simp only [Effect.drops_append, EntryKind.CanDrop.append_iff] at spared ⊢
  have closing := push.closing_spares made c.ring spared.1
  have rest := sound.closing_atRest push found setup.kind made
  dsimp only at closing
  rw [closing, dropHandle_spared rest spared.2]

end Operations

/-! ## Runs -/

/-- No entry breaks off while the step drops it, also inside its constructor. -/
def Step.IsSpared (setup : Setup α) (step : Step α) (s : Session α) : Prop :=
  setup.kind.CanDrop (Effect.drops (Step.run setup step s).2.log)

def Step.AreSpared (setup : Setup α) (steps : List (Step α)) (s : Session α) : Prop :=
  setup.kind.CanDrop (Effect.drops (Answer.logs (Step.runAll setup steps s).2))

/-- What each step drops is among what all drop. -/
theorem Step.AreSpared.cons {step : Step α} {rest : List (Step α)} {s : Session α}
    (spared : Step.AreSpared setup (step :: rest) s) :
    step.IsSpared setup s ∧ ((Step.run setup step s).2.isWaiting = false →
      Step.AreSpared setup rest (Step.run setup step s).1) := by
  unfold AreSpared Step.runAll at spared
  cases finished : (Step.run setup step s).2.isWaiting with
  | true =>
    simp only [finished, if_true, Answer.logs, Effect.drops_append,
      EntryKind.CanDrop.append_iff] at spared
    exact ⟨spared.1, nofun⟩
  | false =>
    simp only [finished, Bool.false_eq_true, if_false, Answer.logs, Effect.drops_append,
      EntryKind.CanDrop.append_iff] at spared
    exact ⟨spared.1, fun _ => spared.2⟩

/-- What a constructor drops is among what its push drops, and so is what the end of the push
drops. -/
theorem Step.IsSpared.granted {name : String} {terms : Terms} {during : List (Step α)}
    {made : Except Fault α} {s : Session α}
    (spared : (Step.emplace name terms during made).IsSpared setup s) {number : Nat}
    {policy : OverflowPolicy} {evicted : Option α}
    (began : (s.beginEmplace name terms).result = .granted number policy evicted) :
    let inside := Step.runAll setup during (s.beginEmplace name terms).session
    Step.AreSpared setup during (s.beginEmplace name terms).session ∧
      (inside.2.any Answer.isWaiting = false → setup.kind.CanDrop
        (Effect.drops (inside.1.endEmplace setup number terms policy evicted made).effects)) := by
  intro inside
  unfold IsSpared Step.run at spared
  cases finished : inside.2.any Answer.isWaiting with
  | true =>
    simp only [began, inside, finished, if_true, Answer.log, Effect.drops_append,
      EntryKind.CanDrop.append_iff] at spared
    exact ⟨spared.2, nofun⟩
  | false =>
    simp only [began, inside, finished, Bool.false_eq_true, if_false, Answer.log,
      Effect.drops_append, EntryKind.CanDrop.append_iff] at spared
    exact ⟨spared.2, fun _ => spared.1.2⟩

mutual

/-- A step that spares its entries goes as with entries that can be dropped. -/
theorem Step.run_spared {setup : Setup α} : (step : Step α) → (s : Session α) → s.Sound →
    step.IsOrdinary setup.droppable → step.IsSpared setup s →
    Step.run setup.droppable step s = Step.run setup step s
  | .create name creation, s, sound, _, spared => by
    simp only [Step.run, sound.create_spared spared]
  | .act name action, s, sound, _, spared => by
    have same := sound.performed_spared (performs s name action) spared
    simp only [Step.run, same]
  | .emplace name terms during made, s, sound, ordinary, spared => by
    unfold Step.run
    cases began : (s.beginEmplace name terms).result with
    | ended result => simp only [began]
    | granted number policy evicted =>
      obtain ⟨rfl, kind, entered⟩ := sound.begun_granted setup.kind.cloning began
      obtain ⟨inside, closing⟩ := spared.granted began
      have same := Step.runAll_spared during _ entered.sound ordinary inside
      simp only [began, same]
      split
      · rfl
      · rename_i ended
        have finished := Bool.eq_false_of_not_eq_true ended
        have droppable : setup.droppable.kind.dropFails = none := rfl
        have ran := Step.runAll_continues droppable during _ entered.sound ordinary (by rwa [same])
        rw [same, entered.pushes] at ran
        rw [ran.sound.endEmplace_spared ran.pushes (closing finished)]

/-- Steps that spare their entries go as with entries that can be dropped. -/
theorem Step.runAll_spared {setup : Setup α} : (steps : List (Step α)) → (s : Session α) →
    s.Sound → Step.AreOrdinary setup.droppable steps → Step.AreSpared setup steps s →
    Step.runAll setup.droppable steps s = Step.runAll setup steps s
  | [], _, _, _, _ => by simp only [Step.runAll]
  | step :: rest, s, sound, ordinary, spared => by
    obtain ⟨first, later⟩ := spared.cons
    have same := Step.run_spared step s sound ordinary.1 first
    simp only [Step.runAll, same]
    split
    · rfl
    · rename_i ended
      have finished := Bool.eq_false_of_not_eq_true ended
      have droppable : setup.droppable.kind.dropFails = none := rfl
      have one := Step.run_continues droppable step s sound ordinary.1 (by rwa [same])
      rw [same] at one
      rw [Step.runAll_spared rest _ one.sound ordinary.2 (later finished)]

end

end Session

end RingQueue
