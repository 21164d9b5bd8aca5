import RingQueue.Proofs.Session.Ledger

/-!
Creations as new rings, and actions as calls on a ring.

Most actions of a handle come down to one call on the ring of its channel (`Action.call?`), whatever
else there is in the session. The others only look, or give up, split or clone handles, or let a
thread push. `performs` lists what an action can come to; what actions have in common is shown by
cases on this list.
-/
namespace RingQueue.Session

variable {α β γ : Type}

/-! ## New queues -/

namespace Creation

/-- The ring of the new queue and its policy, unless the settings are turned down. -/
def build (setup : Setup α) : Creation α → Except ConfigError (Built α (Ring α × Option Policy))
  | .queue (.ofCapacity capacity) =>
    .ok ((Ring.create setup.kind capacity).map fun ring => (ring, none))
  | .queue (.filled capacity value) =>
    .ok ((Ring.filled setup.kind capacity value).map fun ring => (ring, none))
  | .policyQueue (.ofCapacity capacity policy) =>
    .ok ((PolicyQueue.create setup.kind capacity (setup.policy policy)).map
      fun queue => (queue.ring, some queue.policy))
  | .policyQueue (.ofConfig config) =>
    (PolicyQueue.ofConfig setup.kind config).map
      fun built => built.map fun queue => (queue.ring, some queue.policy)

def success : Creation α → Result α
  | .queue _ => .done
  | .policyQueue _ => .configured (.ok ())

theorem success_ne_waiting (creation : Creation α) : creation.success ≠ .waiting := by
  cases creation <;> nofun

end Creation

theorem create_eq (setup : Setup α) (s : Session α) (name : String) (creation : Creation α) :
    s.create setup name creation =
      match creation.build setup with
      | .error e => s.answer (.configured (.error e))
      | .ok built => s.placeBuilt setup.kind name built creation.success := by
  cases creation with
  | queue source => cases source <;> rfl
  | policyQueue source =>
    cases source with
    | ofCapacity capacity policy => rfl
    | ofConfig config =>
      simp only [create, Creation.build]
      cases PolicyQueue.ofConfig setup.kind config <;> rfl

/-! ## Results of calls -/

/-- The result of a call that presents its own. -/
def resultOfCall (made : Call α (Result α)) : Result α :=
  match made.outcome with
  | .returned result => result
  | .aborted fault => .aborted fault
  | .waiting => .waiting

theorem resultOfCall_map (made : Call α β) (present : β → Result α) :
    resultOfCall (made.map present) =
      match made.outcome with
      | .returned value => present value
      | .aborted fault => .aborted fault
      | .waiting => .waiting := by
  obtain ⟨outcome, ring, effects⟩ := made
  cases outcome <;> rfl

/-- A call that waits makes its action wait. -/
theorem outcome_ne_waiting {made : Call α (Result α)} (finished : resultOfCall made ≠ .waiting) :
    made.outcome ≠ .waiting := by
  intro waits
  simp [resultOfCall, waits] at finished

theorem outcome_map_ne_waiting {made : Call α β} {f : β → γ}
    (finished : (made.map f).outcome ≠ .waiting) :
    made.outcome ≠ .waiting := by
  intro waits
  simp [Call.map, Outcome.map, waits] at finished

/-- The result of a call is presented at once. -/
theorem call_map (s : Session α) (key : Key) (made : Call α β) (f : β → γ)
    (present : γ → Result α) :
    s.call key (made.map f) present = s.call key made fun x => present (f x) := by
  obtain ⟨outcome, ring, effects⟩ := made
  cases outcome <;> rfl

theorem call_eq (s : Session α) (key : Key) (made : Call α (Result α)) :
    s.call key made id =
      ⟨s.after (setRing key made.ring s.channels) made.effects, resultOfCall made,
        made.effects⟩ := by
  obtain ⟨outcome, ring, effects⟩ := made
  cases outcome <;> rfl

theorem resultOf_ne_waiting (fault : Option Fault) {result : Result α} (ended : result ≠ .waiting) :
    resultOf fault result ≠ .waiting := by
  cases fault with
  | none => exact ended
  | some fault => nofun

/-! ## Actions that are calls -/

/-- The call that an action comes down to, with its result as the action presents it. -/
def Action.call? (setup : Setup α) (c : Channel α) (role : Role) : Action α →
    Option (Call α (Result α))
  | .push (.asked kind) value => some ((c.ring.push kind value).map (showPush kind value))
  | .push .configured value =>
    some ((c.ring.pushUnder setup.kind c.overflowPolicy value).map .pushed)
  | .pushWithin timeout value => some ((c.ring.pushBackWithin setup.clock timeout value).map .tried)
  | .popFront => some (c.ring.popFront.map .entry)
  | .popWithin timeout => some ((c.ring.popFrontWithin setup.clock timeout).map .entry)
  | .read => some (c.ring.read?.map .read)
  | .readWithin timeout =>
    some ((c.ring.popFrontWithin setup.clock timeout).map fun a => .read (Ring.reading a))
  | .front => if role = .owner then none else
      some ((c.ring.peekClone setup.kind.cloning).map .entry)
  | .drain limit => some ((c.ring.drain limit).map .entries)
  | .reserve capacity => some ((c.ring.reserve setup.kind capacity).map fun _ => .done)
  | .clear => some ((c.ring.clear setup.kind).map fun _ => .done)
  | .exclusive operation =>
    if c.isSole then
      some ((operation.apply setup.kind c.ring).map fun x => .exclusive (some x))
    else none
  | _ => none

/-- The call of an action is made on the ring of its handle. -/
theorem useHandle_call {setup : Setup α} (s : Session α) (name : String) {c : Channel α}
    {role : Role} {action : Action α} {made : Call α (Result α)}
    (call : action.call? setup c role = some made) :
    s.useHandle setup name c role action = s.call (.name name) made id := by
  cases action with
  | push terms value => cases terms <;> (cases call; rw [call_map]; rfl)
  | front =>
    simp only [Action.call?] at call
    split at call
    · cases call
    · rename_i other
      cases call
      rw [call_map]
      exact if_neg other
  | exclusive operation =>
    simp only [Action.call?] at call
    split at call
    · rename_i sole
      cases call
      rw [call_map]
      exact if_pos sole
    · cases call
  | pushWithin | popFront | popWithin | read | readWithin | drain | reserve | clear =>
    cases call
    rw [call_map]
    rfl
  | _ => cases call

/-! ## What actions come to -/

/-- Whether an action is refused on account of the handle that is there, whatever the setup. -/
theorem perform_cases (s : Session α) (name : String) (action : Action α) :
    (∃ result, (result.isRefused = true ∨ action = .observe ∧ result = .nothing) ∧
      ∀ setup, s.perform setup name action = s.answer result) ∨
    ∃ c h, s.find? (.name name) = some (c, h) ∧ action.isOffered h.role c.policy.isSome = true ∧
      (action.needsAll = true → h.keptBy = []) ∧
      ∀ setup, s.perform setup name action = s.useHandle setup name c h.role action := by
  cases found : s.find? (.name name) with
  | none =>
    refine .inl ?_
    cases action with
    | observe => exact ⟨.nothing, .inr ⟨rfl, rfl⟩, fun setup => by simp only [perform, found]⟩
    | _ => exact ⟨.unavailable, .inl rfl, fun setup => by simp only [perform, found]⟩
  | some place =>
    obtain ⟨c, h⟩ := place
    by_cases offered : action.isOffered h.role c.policy.isSome = true
    · by_cases kept : (action.needsAll && !h.keptBy.isEmpty) = true
      · refine .inl ⟨.unavailable, .inl rfl, fun setup => ?_⟩
        simp only [perform, found, offered, kept, Bool.not_true, Bool.false_eq_true,
          if_false, if_true]
      · refine .inr ⟨c, h, rfl, offered, by simpa using kept, fun setup => ?_⟩
        simp only [perform, found, offered, Bool.not_true, Bool.false_eq_true, if_false]
        exact if_neg kept
    · refine .inl ⟨.unavailable, .inl rfl, fun setup => ?_⟩
      simp only [perform, found]
      exact if_pos (by simpa using offered)

/-- Actions that show something and change nothing. -/
def Action.isLook : Action α → Bool
  | .observe => true
  | .describe _ => true
  | .front => true
  | .blocks => true
  | .policy => true
  | _ => false

/-- What an action comes to, with the reply for every setup. -/
inductive Performs (s : Session α) (name : String) :
    Action α → (Setup α → Reply α (Result α)) → Prop where
  | refused {action : Action α} {result : Result α} (refused : result.isRefused = true) :
      Performs s name action fun _ => s.answer result
  | looked {action : Action α} {result : Result α} (look : action.isLook = true)
      (stays : action.handed (s.role? name) result = []) :
      Performs s name action fun _ => s.answer result
  | called {action : Action α} {c : Channel α} {h : Handle} {made : Setup α → Call α (Result α)}
      (found : s.find? (.name name) = some (c, h))
      (offered : action.isOffered h.role c.policy.isSome = true)
      (free : action.needsAll = true → h.keptBy = [])
      (call : ∀ setup, action.call? setup c h.role = some (made setup)) :
      Performs s name action fun setup => s.call (.name name) (made setup) id
  | dropped {c : Channel α} {h : Handle} (found : s.find? (.name name) = some (c, h)) :
      Performs s name .drop fun setup => Session.drop setup s name
  | split {c : Channel α} {h : Handle} (found : s.find? (.name name) = some (c, h))
      (owner : h.role = .owner) (free : h.keptBy = []) (producer consumer : String) :
      Performs s name (.split producer consumer) fun setup =>
        Session.split setup s name producer consumer c
  | clonedProducer {c : Channel α} {h : Handle} (found : s.find? (.name name) = some (c, h))
      (producer : h.role = .producer) (new : String) :
      Performs s name (.clone new) fun setup => Session.cloneProducer setup s name new c
  | clonedQueue {c : Channel α} {h : Handle} (found : s.find? (.name name) = some (c, h))
      (owner : h.role = .owner) (new : String) :
      Performs s name (.clone new) fun setup => Session.cloneQueue setup s name new c
  | handedOver {c : Channel α} {h : Handle} (found : s.find? (.name name) = some (c, h))
      (consumer : String) (values : List α) (pops : Nat) :
      Performs s name (.pushFromThread consumer values pops) fun _ =>
        Session.pushFromThread s name consumer values pops c

variable {s : Session α} {name : String}

theorem role?_of_find? {c : Channel α} {h : Handle} (found : s.find? (.name name) = some (c, h)) :
    s.role? name = some h.role := by
  rw [role?, found]
  rfl

theorem useHandle_performs {c : Channel α} {h : Handle} (found : s.find? (.name name) = some (c, h))
    {action : Action α} (offered : action.isOffered h.role c.policy.isSome = true)
    (free : action.needsAll = true → h.keptBy = []) :
    Performs s name action fun setup => s.useHandle setup name c h.role action := by
  have called {made : Setup α → Call α (Result α)}
      (call : ∀ setup, action.call? setup c h.role = some (made setup)) :
      Performs s name action fun setup => s.useHandle setup name c h.role action := by
    simp only [useHandle_call s name (call _)]
    exact .called found offered free call
  cases action with
  | push terms value => cases terms <;> exact called fun _ => rfl
  | pushWithin | popFront | popWithin | read | readWithin | drain | reserve | clear =>
    exact called fun _ => rfl
  | split producer consumer =>
    exact .split found (by simpa [Action.isOffered] using offered) (free rfl) producer consumer
  | drop => exact .dropped found
  | observe | describe | blocks => exact .looked rfl rfl
  | policy =>
    simp only [useHandle]
    split <;> exact .looked rfl rfl
  | front =>
    by_cases owner : h.role = .owner
    · simp only [useHandle, if_pos owner]
      exact .looked rfl (by rw [role?_of_find? found, owner]; rfl)
    · exact called fun _ => if_neg owner
  | clone new =>
    simp only [useHandle]
    split
    · exact .clonedProducer found ‹_› new
    · exact .clonedQueue found (by simp_all [Action.isOffered]) new
  | exclusive operation =>
    by_cases sole : c.isSole
    · exact called fun _ => if_pos sole
    · simp only [useHandle, exclusive, if_neg sole]
      exact .refused rfl
  | pushFromThread consumer values pops => exact .handedOver found consumer values pops

/-- Any action under a name. -/
theorem performs (s : Session α) (name : String) (action : Action α) :
    Performs s name action fun setup => s.perform setup name action := by
  rcases perform_cases s name action with ⟨result, refused | ⟨rfl, rfl⟩, answered⟩ | ⟨c, h, found,
    offered, free, used⟩
  · simp only [answered]
    exact .refused refused
  · simp only [answered]
    exact .looked rfl rfl
  · simp only [used]
    exact useHandle_performs found offered free

end RingQueue.Session
