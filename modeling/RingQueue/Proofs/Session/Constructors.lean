import RingQueue.Proofs.Ring.Constructors
import RingQueue.Proofs.Session.Frames
import RingQueue.Proofs.Session.Reachable

/-!
Constructors that break off.

A push with a constructor goes like one call on the ring, whatever its constructor does with other
queues (`Reachable.emplaced`). When the constructor breaks off, the room is given back, so that no
capacity is ever lost (`constructors_return_room`).
-/
namespace RingQueue.Session

variable {α : Type}

/-! ## Pushes as calls -/

/-- A push with a constructor, as a call on the ring. -/
def Terms.emplaced (terms : Terms) (k : EntryKind α) (policy : OverflowPolicy)
    (made : Except Fault α) (r : Ring α) : Call α (Result α) :=
  match terms with
  | .asked _ => (r.emplace policy fun _ => made).map (showEmplace policy)
  | .configured => (r.emplaceUnder k policy fun _ => made).map .pushed

/-- A push of a value, as a call on the ring. -/
def Terms.pushed (terms : Terms) (k : EntryKind α) (policy : OverflowPolicy) (value : α)
    (r : Ring α) :
    Call α (Result α) :=
  match terms with
  | .asked _ => (r.push policy value).map (showPush policy value)
  | .configured => (r.pushUnder k policy value).map .pushed

/-- What a push with a constructor answers where one of a value answers this; it has no value to
give back. -/
def Result.valueless : Result α → Result α
  | .tried (.ok _) => .constructed true
  | .tried (.error _) => .constructed false
  | result => result

/-- Once room is granted, the end of the push is the rest of the call. -/
theorem Terms.emplaced_granted {terms : Terms} {policy : OverflowPolicy} {r ring : Ring α}
    {evicted : Option α} {effects : List (Effect α)}
    (granted : r.request policy = .returned (.granted evicted) ring effects) (k : EntryKind α)
    (made : Except Fault α) (number : Nat) :
    terms.emplaced k policy made r =
      ((⟨number, terms, policy, evicted⟩ : Pending α).closing k made ring).after effects := by
  have emplaced : (r.emplace policy fun _ => made) = (ring.settle evicted made).after effects := by
    rw [Ring.emplace, granted]
    rfl
  cases terms with
  | asked => simp only [Terms.emplaced, emplaced, Pending.closing, Call.map, Call.after]
  | configured =>
    simp only [Terms.emplaced, Ring.emplaceUnder, emplaced, Pending.closing]
    obtain ⟨outcome, left, log⟩ := ring.settle evicted made
    cases outcome <;> simp [Call.andThen, Call.map, Call.after]

/-- A push that stores nothing reports, drops and leaves the same under all terms. -/
theorem Terms.emplaced_not_stored (terms : Terms) {policy : OverflowPolicy} {r ring : Ring α}
    {made : Except Fault α} {outcome : Outcome (Pushed α)} {effects : List (Effect α)}
    (emplaced : (r.emplace policy fun _ => made) = ⟨outcome, ring, effects⟩)
    (not_stored : ∀ evicted, outcome ≠ .returned (.stored evicted)) (k : EntryKind α) :
    terms.emplaced k policy made r = ⟨outcome.map fun _ => terms.refusal, ring, effects⟩ := by
  cases terms with
  | asked =>
    rw [Terms.emplaced, emplaced]
    rcases outcome with (_ | evicted) | fault | _
    · rfl
    · exact absurd rfl (not_stored evicted)
    · rfl
    · rfl
  | configured =>
    rw [Terms.emplaced, Ring.emplaceUnder, emplaced]
    rcases outcome with (_ | evicted) | fault | _
    · simp only [Call.andThen, Ring.report_denied, Ring.returnAfterDrop, Effect.drop?,
        List.append_nil]
      rfl
    · exact absurd rfl (not_stored evicted)
    · rfl
    · rfl

/-- With a value made, both pushes leave the same ring and answer alike, but that a value that is
turned down is dropped, and may break off then. -/
theorem Terms.emplaced_made (terms : Terms) (k : EntryKind α) (policy : OverflowPolicy) (value : α)
    (r : Ring α) :
    let emplaced := terms.emplaced k policy (.ok value) r
    let pushed := terms.pushed k policy value r
    emplaced.ring = pushed.ring ∧
      (resultOfCall emplaced = (resultOfCall pushed).valueless ∧ pushed.effects = emplaced.effects ∨
        resultOfCall emplaced = .pushed (.error .queueIsFull) ∧
          resultOfCall pushed = resultOf (k.dropFault value) (.pushed (.error .queueIsFull)) ∧
          pushed.effects = emplaced.effects ++ [.dropped (.single value)]) := by
  have same : (r.emplace policy fun _ => .ok value) = r.push policy value := rfl
  cases terms with
  | asked =>
    simp only [Terms.emplaced, Terms.pushed, same]
    obtain ⟨outcome, ring, effects⟩ := r.push policy value
    refine ⟨rfl, .inl ⟨?_, rfl⟩⟩
    cases outcome with
    | returned pushed =>
      cases pushed with
      | denied => rfl
      | stored evicted => cases policy <;> rfl
    | aborted fault => rfl
    | waiting => rfl
  | configured =>
    simp only [Terms.emplaced, Terms.pushed, Ring.emplaceUnder, Ring.pushUnder, same]
    obtain ⟨outcome, ring, effects⟩ := r.push policy value
    cases outcome with
    | returned pushed =>
      cases pushed with
      | denied =>
        refine ⟨rfl, .inr ⟨rfl, ?_, ?_⟩⟩
        · simp only [Call.andThen, Ring.report_denied, Ring.returnAfterDrop, Option.bind_some]
          cases k.dropFault value <;> rfl
        · simp [Call.andThen, Call.map, Ring.report, Ring.returnAfterDrop, Effect.drop?]
      | stored evicted =>
        refine ⟨rfl, .inl ⟨?_, rfl⟩⟩
        simp only [Call.andThen, Ring.report_stored, Ring.returnAfterDrop]
        cases evicted.bind k.dropFault <;> rfl
    | aborted fault => exact ⟨rfl, .inl ⟨rfl, rfl⟩⟩
    | waiting => exact ⟨rfl, .inl ⟨rfl, rfl⟩⟩

theorem perform_push (setup : Setup α) {s : Session α} {name : String} {terms : Terms}
    {c : Channel α} {h : Handle} (found : s.find? (.name name) = some (c, h))
    (accepts : ¬ h.refuses c terms) (value : α) :
    s.perform setup name (.push terms value) =
      s.call (.name name) (terms.pushed setup.kind (terms.policy c) value c.ring) id := by
  have offered : (Action.push terms value).isOffered h.role c.policy.isSome = true := by
    cases terms <;> simp_all [Handle.refuses, Action.isOffered, Option.isSome_iff_ne_none]
  have call : (Action.push terms value).call? setup c h.role =
      some (terms.pushed setup.kind (terms.policy c) value c.ring) := by cases terms <;> rfl
  simp only [perform, found, offered, Action.needsAll]
  exact useHandle_call s name call

/-! ## Handles that a push keeps -/

/-- The handle that a push no longer keeps is as it was before the push. -/
theorem Handle.without_kept {h : Handle} (reached : h.keys ≠ []) (number : Nat) :
    (h.kept number).without (.push number) = some h := by
  rw [ne_eq, keys_eq_nil_iff] at reached
  simp only [without, kept, List.erase_cons_head]
  rw [if_neg reached]

namespace Channel

variable {c : Channel α} {name : String} {number : Nat}

theorem entered_keys (distinct : c.keys.Nodup) (here : .name name ∈ c.keys) (number : Nat)
    (ring : Ring α) : (c.entered name number ring).keys.Perm (.push number :: c.keys) :=
  handleKeys_kept c.handles distinct here number

theorem entered_without (held : ∀ h ∈ c.handles, h.keys ≠ []) (fresh : .push number ∉ c.keys)
    (ring : Ring α) : (c.entered name number ring).without (.push number) = c.handles := by
  change (c.handles.map fun h => if h.answersTo (.name name) then h.kept number else h).filterMap
    _ = _
  rw [List.filterMap_map]
  refine (List.filterMap_congr fun h member => ?_).trans (List.filterMap_some)
  simp only [Function.comp_apply]
  split
  · exact Handle.without_kept (held h member) number
  · exact Handle.without_of_not_mem (fun here => fresh (List.mem_flatMap.mpr ⟨h, member, here⟩))
      (held h member)

end Channel

section Push

variable {setup : Setup α} {s t : Session α} {name : String} {terms : Terms} {c : Channel α}
  {h : Handle} {before after : List (Channel α)}

/-- A push ends at the channel that it entered; nothing else changes. -/
theorem Located.leave (setup : Setup α) (push : Pending α) {ring : Ring α}
    (place : Located (.push push.number) t.channels before (c.entered name push.number ring) after)
    {kept : Handle}
    (found : t.find? (.push push.number) = some (c.entered name push.number ring, kept))
    (member : h ∈ c.handles) (held : ∀ h ∈ c.handles, h.keys ≠ [])
    (fresh : .push push.number ∉ c.keys) (made : Except Fault α) :
    t.endEmplace setup push.number push.terms push.policy push.evicted made =
      let closed := push.closing setup.kind made ring
      ⟨⟨before ++ { c with ring := closed.ring } :: after, t.blocks.afterAll closed.effects,
        push.number⟩,
        resultOfCall closed, closed.effects⟩ := by
  have ring_eq : (c.entered name push.number ring).ring = ring := rfl
  have changed := place.setRing (push.closing setup.kind made ring).ring
  have replaced : Located (.push push.number)
      (before ++ { c.entered name push.number ring with ring :=
        (push.closing setup.kind made ring).ring } :: after) before
      { c.entered name push.number ring with ring := (push.closing setup.kind made ring).ring }
        after := place.replaced rfl
  have dropped := replaced.dropHandle setup.kind
  have handles : Channel.without { c.entered name push.number ring with ring :=
    (push.closing setup.kind made ring).ring }
      (.push push.number) = c.handles := Channel.entered_without held fresh ring
  have some_handle : ¬ c.handles.isEmpty = true := by
    rw [List.isEmpty_iff]
    exact List.ne_nil_of_mem member
  rw [handles, if_neg some_handle] at dropped
  rw [push.leave_eq made found]
  simp only [ring_eq, changed, dropped, List.append_nil]
  rfl

/-- A constructor that comes to an end, and whose steps leave a queue alone. -/
structure Step.LeaveAlone (setup : Setup α) (s : Session α) (c : Channel α)
    (during : List (Step α)) : Prop where
  sequential : Step.AreSequential during
  apart : ∀ key ∈ Step.allKeys during, key ∉ c.keys
  ends : (Step.runAll setup during s).2.any Answer.isWaiting = false

/-- What a push has come to whose constructor was run: it left the queue with this ring. -/
structure Constructed (setup : Setup α) (s : Session α) (name : String) (terms : Terms)
    (during : List (Step α)) (made : Except Fault α) (c : Channel α) (h : Handle) (ring : Ring α)
    (result : Result α) (effects : List (Effect α)) : Prop where
  found : (Step.run setup (.emplace name terms during made) s).1.find? (.name name) =
    some ({ c with ring }, h)
  -- The constructor ran its steps once.
  answer : (Step.run setup (.emplace name terms during made) s).2 =
    .emplaced ⟨result, some (Channel.status { c with ring } h.role), effects⟩
      (some (Step.runAll setup during (s.beginEmplace name terms).session).2)
  -- Other queues are as it left them.
  others : ∀ d ∈ (Step.runAll setup during (s.beginEmplace name terms).session).1.channels,
    .push s.pushes ∉ d.keys → d ∈ (Step.run setup (.emplace name terms during made) s).1.channels
  alone : during = [] → (Step.run setup (.emplace name terms during made) s).1 =
    s.after (setRing (.name name) ring s.channels) effects

theorem Step.run_granted {during : List (Step α)} {number : Nat} {policy : OverflowPolicy}
    {evicted : Option α} (began : (s.beginEmplace name terms).result = .granted number
      policy evicted)
    (ends : (Step.runAll setup during (s.beginEmplace name terms).session).2.any
      Answer.isWaiting = false)
    (made : Except Fault α) :
    Step.run setup (.emplace name terms during made) s =
      let inside := Step.runAll setup during (s.beginEmplace name terms).session
      let ended := inside.1.endEmplace setup number terms policy evicted made
      (ended.session, .emplaced ⟨ended.result, ended.session.status? name,
        (s.beginEmplace name terms).effects ++ ended.effects⟩ (some inside.2)) := by
  unfold Step.run
  simp only [began, ends]
  rfl

/-- The next push is not under way yet. -/
theorem Sound.fresh (sound : s.Sound) : .push s.pushes ∉ keysOf s.channels := by
  rw [sound.under_way]
  exact Nat.lt_irrefl _

section Granted

variable {pending : List (Pending α)} {evicted : Option α} {ring : Ring α} {log : List (Effect α)}
  {during : List (Step α)}

/-- The push finds the channel as it left it when its constructor is done. -/
theorem Reachable.entered_kept (reachable : Reachable setup s pending)
    (found : s.find? (.name name) = some (c, h)) (begun : s.beginEmplace name terms =
      ⟨⟨before ++ c.entered name s.pushes ring :: after, s.blocks.afterAll log, s.pushes + 1⟩,
        .granted s.pushes (terms.policy c) evicted, log⟩)
    (leaves : Step.LeaveAlone setup (s.beginEmplace name terms).session c during) :
    let inside := (Step.runAll setup during (s.beginEmplace name terms).session).1
    Reachable setup inside (⟨s.pushes, terms, terms.policy c, evicted⟩ :: pending) ∧
      inside.find? (.push s.pushes) = some (c.entered name s.pushes ring, h.kept s.pushes) := by
  obtain ⟨member, handle, here⟩ := findChannel_eq_some found
  have distinct : c.keys.Nodup :=
    (List.nodup_flatMap.mp reachable.between.sound.consistent.distinct).1 c member
  have reached : .name name ∈ c.keys := List.mem_flatMap.mpr ⟨h, handle, here⟩
  have keys := Channel.entered_keys distinct reached s.pushes ring
  have entered : Reachable setup (s.beginEmplace name terms).session _ :=
    reachable.entered (by rw [begun])
  have enteredMember : c.entered name s.pushes ring ∈
    (s.beginEmplace name terms).session.channels := by
    rw [begun]
    exact List.mem_append_right _ List.mem_cons_self
  have elsewhere : Elsewhere setup (c.entered name s.pushes ring).keys
    (s.beginEmplace name terms).session
      (Step.runAll setup during (s.beginEmplace name terms).session).1 := by
    refine (Step.runAll_elsewhere during _ .start ?_ ?_).1
    · intro key used kept
      rcases List.mem_cons.mp (keys.subset kept) with rfl | old
      · obtain ⟨other, same⟩ := Step.allKeys_name during _ used
        cases same
      · exact leaves.apart key used old
    · intro number kept
      exact (entered.between.sound.under_way number).mp
        (List.mem_flatMap.mpr ⟨_, enteredMember, kept⟩)
  have inside := entered.runAll leaves.sequential leaves.ends
  have kept : h.kept s.pushes ∈ (c.entered name s.pushes ring).handles :=
    List.mem_map.mpr ⟨h, handle, if_pos ((h.answersTo_iff _).mpr here)⟩
  have own : .push s.pushes ∈ (h.kept s.pushes).keys := (h.keys_kept s.pushes).symm.subset
    List.mem_cons_self
  exact ⟨inside,
    findChannel_of_mem inside.between.sound.consistent.distinct (elsewhere.mem enteredMember)
      kept own⟩

/-- When its constructor is done, the push ends at the channel that it entered, wherever this
stands. -/
theorem Reachable.leave_entered {push : Pending α} (reachable : Reachable setup t (push :: pending))
    (keeps : t.find? (.push push.number) =
      some (c.entered name push.number ring, h.kept push.number))
    (held : ∀ h ∈ c.handles, h.keys ≠ []) (handle : h ∈ c.handles) (here : .name name ∈ h.keys)
    (fresh : .push push.number ∉ c.keys) (made : Except Fault α) :
    let closed := push.closing setup.kind made ring
    let ended := t.endEmplace setup push.number push.terms push.policy push.evicted made
    ended.session.find? (.name name) = some ({ c with ring := closed.ring }, h) ∧
      ended.result = resultOfCall closed ∧ ended.effects = closed.effects ∧
      ∀ before after, t.channels = before ++ c.entered name push.number ring :: after →
        ended.session =
          ⟨before ++ { c with ring := closed.ring } :: after, t.blocks.afterAll closed.effects,
            push.number⟩ := by
  have distinct := reachable.between.sound.consistent.distinct
  obtain ⟨before, after, place⟩ := located_of_findChannel distinct keeps
  have ended := place.leave setup push keeps handle held fresh made
  have last : Reachable setup (t.endEmplace setup push.number push.terms push.policy push.evicted
    made).session
    pending := reachable.next (.leave push made) .left
  refine ⟨findChannel_of_mem last.between.sound.consistent.distinct ?_ handle here, ?_, ?_, ?_⟩
  · rw [ended]
    exact List.mem_append_right _ List.mem_cons_self
  · rw [ended]
  · rw [ended]
  · intro before after split
    rw [(located_of_split distinct split place.here).leave setup push keeps handle held fresh made]

theorem Reachable.constructed (reachable : Reachable setup s pending)
    (found : s.find? (.name name) = some (c, h)) (accepts : ¬ h.refuses c terms)
    (granted : c.ring.request (terms.policy c) = .returned (.granted evicted) ring log)
    (leaves : Step.LeaveAlone setup (s.beginEmplace name terms).session c during)
    (made : Except Fault α) :
    Constructed setup s name terms during made c h
      (terms.emplaced setup.kind (terms.policy c) made c.ring).ring
        (resultOfCall (terms.emplaced setup.kind (terms.policy c) made c.ring))
      (terms.emplaced setup.kind (terms.policy c) made c.ring).effects := by
  obtain ⟨⟨before, after, place⟩, -⟩ := reachable.located found
  obtain ⟨member, handle, here⟩ := findChannel_eq_some found
  have fresh : .push s.pushes ∉ c.keys :=
    fun kept => reachable.between.sound.fresh (List.mem_flatMap.mpr ⟨c, member, kept⟩)
  have begun := beginEmplace_granted found accepts granted
  rw [place.entered] at begun
  obtain ⟨inside, keeps⟩ := reachable.entered_kept found begun leaves
  obtain ⟨lastFound, result, effects, session⟩ :=
    inside.leave_entered keeps (reachable.held c member) handle here fresh made
  rw [terms.emplaced_granted granted setup.kind made s.pushes]
  have run := Step.run_granted (by rw [begun]) leaves.ends made
  constructor
  · rw [run]
    exact lastFound
  · rw [run]
    dsimp only at lastFound result effects ⊢
    rw [Session.status?, lastFound, result, effects, begun]
    rfl
  · intro d there elsewhere
    rw [run]
    exact mem_endEmplace setup there elsewhere _ _ _ _
  · rintro rfl
    have alone := session before after (by simp only [Step.runAll, begun])
    rw [run]
    dsimp only at alone ⊢
    rw [alone, Session.after, place.setRing]
    simp [Step.runAll, begun, Call.after, Blocks.afterAll]

end Granted

/-! ## Any push -/

/-- What a push with a constructor comes to, as a call on the ring. -/
structure Emplaced (setup : Setup α) (s : Session α) (name : String) (terms : Terms)
    (during : List (Step α)) (made : Except Fault α) (c : Channel α) (h : Handle)
    (call : Call α (Result α)) : Prop where
  found : (Step.run setup (.emplace name terms during made) s).1.find? (.name name) =
    some ({ c with ring := call.ring }, h)
  result : (Step.run setup (.emplace name terms during made) s).2.report.result = resultOfCall call
  effects : (Step.run setup (.emplace name terms during made) s).2.report.effects = call.effects
  alone : during = [] → (Step.run setup (.emplace name terms during made) s).1 =
    s.after (setRing (.name name) call.ring s.channels) call.effects

theorem Step.run_ended {result : Result α} {log : List (Effect α)}
    (ended : s.beginEmplace name terms = ⟨s, .ended result, log⟩) (during : List (Step α))
    (made : Except Fault α) :
    Step.run setup (.emplace name terms during made) s =
      (s, .emplaced ⟨result, s.status? name, log⟩ none) := by
  unfold Step.run
  simp only [ended]

theorem Located.after_self (place : Located (.name name) s.channels before c after) :
    s.after (Session.setRing (.name name) c.ring s.channels) [] = s := by
  rw [place.setRing_self]
  rfl

theorem Located.begun_denied (place : Located (.name name) s.channels before c after)
    (found : s.find? (.name name) = some (c, h)) (accepts : ¬ h.refuses c terms)
    (denied : c.ring.request (terms.policy c) = .returned .denied c.ring []) :
    s.beginEmplace name terms = s.answer (.ended terms.refusal) := by
  rw [beginEmplace_denied found accepts denied, place.after_self]
  rfl

theorem Located.begun_waiting (place : Located (.name name) s.channels before c after)
    (found : s.find? (.name name) = some (c, h)) (accepts : ¬ h.refuses c terms) {limit : Nat}
    (waiting : c.ring.request (terms.policy c) =
      ⟨.waiting, c.ring, (terms.policy c).waitingLog limit⟩) :
    s.beginEmplace name terms = ⟨s, .ended .waiting, (terms.policy c).waitingLog limit⟩ := by
  rw [beginEmplace_waiting found accepts waiting, place.setRing_self, after_waitingLog]

/-- A push that has ended before its constructor ran is a call that changes nothing. -/
theorem Located.emplaced_ended (place : Located (.name name) s.channels before c after)
    (found : s.find? (.name name) = some (c, h)) {result : Result α} {log : List (Effect α)}
    (ended : s.beginEmplace name terms = ⟨s, .ended result, log⟩)
    (blockless : s.after s.channels log = s) (during : List (Step α)) (made : Except Fault α)
    {call : Call α (Result α)} (ring : call.ring = c.ring) (presented : resultOfCall call = result)
    (effects : call.effects = log) : Emplaced setup s name terms during made c h call where
  found := by rw [Step.run_ended ended, ring, found]
  result := by rw [Step.run_ended ended, presented]; rfl
  effects := by rw [Step.run_ended ended, effects]; rfl
  alone := by
    intro _
    rw [Step.run_ended ended, ring, effects, place.setRing_self, blockless]

theorem Reachable.emplaced {pending : List (Pending α)} (reachable : Reachable setup s pending)
    (found : s.find? (.name name) = some (c, h)) (accepts : ¬ h.refuses c terms)
    {during : List (Step α)} (leaves : Step.LeaveAlone setup (s.beginEmplace name terms).session c
      during) (made : Except Fault α) :
    Emplaced setup s name terms during made c h
      (terms.emplaced setup.kind (terms.policy c) made c.ring) := by
  obtain ⟨⟨before, after, place⟩, capacity, entries, holds⟩ := reachable.located found
  have requested := holds.requested (terms.policy c)
  generalize request : c.ring.request (terms.policy c) = requesting at requested
  have granted {evicted : Option α} {ring : Ring α} {log : List (Effect α)}
      (granted : c.ring.request (terms.policy c) = .returned (.granted evicted) ring log) :
      Emplaced setup s name terms during made c h
        (terms.emplaced setup.kind (terms.policy c) made c.ring) := by
    have constructed := reachable.constructed found accepts granted leaves made
    exact ⟨constructed.found, by rw [constructed.answer]; rfl, by rw [constructed.answer]; rfl,
      constructed.alone⟩
  cases requested with
  | room => exact granted request
  | evicting => exact granted request
  | denied =>
    have emplaced : (c.ring.emplace (terms.policy c) fun _ => made) =
        .returned .denied c.ring [] := by
      rw [Ring.emplace, request]
      rfl
    rw [terms.emplaced_not_stored emplaced (by rintro _ ⟨⟩)]
    exact place.emplaced_ended found (place.begun_denied found accepts request) rfl during
      made rfl rfl rfl
  | waiting =>
    have emplaced : (c.ring.emplace (terms.policy c) fun _ => made) =
        ⟨.waiting, c.ring, (terms.policy c).waitingLog capacity⟩ := by
      rw [Ring.emplace, request]
      rfl
    rw [terms.emplaced_not_stored emplaced (by rintro _ ⟨⟩)]
    exact place.emplaced_ended found (place.begun_waiting found accepts request)
      (after_waitingLog s _ _) during made rfl rfl rfl

/-- A push with a constructor goes like one of the value that the constructor makes. -/
structure GoesLikePush (setup : Setup α) (s : Session α) (name : String) (terms : Terms)
    (during : List (Step α)) (value : α) : Prop where
  state : (Step.run setup (.emplace name terms during (.ok value)) s).1.find? (.name name) =
    (s.perform setup name (.push terms value)).session.find? (.name name)
  alone : during = [] → (Step.run setup (.emplace name terms during (.ok value)) s).1 =
    (s.perform setup name (.push terms value)).session
  -- Only a value that is turned down has to be dropped as well, and may break off then.
  answer : let emplaced := (Step.run setup (.emplace name terms during (.ok value)) s).2.report
    let pushed := s.perform setup name (.push terms value)
    emplaced.result = pushed.result.valueless ∧ pushed.effects = emplaced.effects ∨
      emplaced.result = .pushed (.error .queueIsFull) ∧
        pushed.result = resultOf (setup.kind.dropFault value) (.pushed (.error .queueIsFull)) ∧
        pushed.effects = emplaced.effects ++ [.dropped (.single value)]

/-- A ring that is replaced is found under the same key. -/
theorem Located.find?_setRing (place : Located (.name name) s.channels before c after)
    (distinct : (keysOf s.channels).Nodup) (found : s.find? (.name name) = some (c, h))
    (ring : Ring α) :
    Session.findChannel (.name name) (Session.setRing (.name name) ring s.channels) =
      some ({ c with ring }, h) := by
  obtain ⟨-, handle, here⟩ := findChannel_eq_some found
  rw [place.setRing]
  refine findChannel_of_mem ?_ (List.mem_append_right _ List.mem_cons_self) handle here
  rwa [place.keysOf_ring]

theorem Reachable.goesLikePush {pending : List (Pending α)} (reachable : Reachable setup s pending)
    (found : s.find? (.name name) = some (c, h)) (accepts : ¬ h.refuses c terms)
    {during : List (Step α)} (leaves : Step.LeaveAlone setup (s.beginEmplace name terms).session c
      during) (value : α) :
    GoesLikePush setup s name terms during value := by
  obtain ⟨⟨before, after, place⟩, -⟩ := reachable.located found
  have emplaced := reachable.emplaced found accepts leaves (.ok value)
  obtain ⟨ring, answers⟩ := terms.emplaced_made setup.kind (terms.policy c) value c.ring
  have performed := perform_push setup found accepts value
  rw [call_eq] at performed
  refine ⟨?_, ?_, ?_⟩
  · rw [emplaced.found, performed, ring]
    exact (place.find?_setRing reachable.between.sound.consistent.distinct found _).symm
  · intro nothing
    rw [emplaced.alone nothing, performed, ring]
    -- Blocks do not count what is dropped.
    rcases answers with ⟨-, effects⟩ | ⟨-, -, effects⟩ <;>
      simp [effects, Session.after, Blocks.afterAll, Blocks.after]
  · dsimp only
    rwa [emplaced.result, emplaced.effects, performed]

/-! ## Pushes whose constructor breaks off -/

theorem Pending.closing_broke_off (push : Pending α) (k : EntryKind α) (fault : Fault)
    (r : Ring α) : (push.closing k (.error fault) r).ring = r.returnAdmission := by
  obtain ⟨number, terms, policy, evicted⟩ := push
  cases terms <;> rfl

/-- When the constructor has broken off, the room is taken back from the queue as the constructor
left it. -/
structure GivesBack (setup : Setup α) (s : Session α) (name : String) (terms : Terms) (number : Nat)
    (during : List (Step α)) (d : Channel α) : Prop where
  unread : d.ring.returnAdmission.unread = d.ring.unread
  len : d.ring.returnAdmission.len + 1 = d.ring.len
  -- Only the ring has changed, but for a handle that was given up meanwhile.
  channels : ∀ fault, (Step.run setup (.emplace name terms during (.error fault)) s).1.channels =
    (dropHandle setup.kind (.push number) (setRing (.push number) d.ring.returnAdmission
      (Step.runAll setup during (s.beginEmplace name terms).session).1.channels)).channels

/-- What a push with a constructor does to its queue. -/
structure Emplaces (setup : Setup α) (s : Session α) (name : String) (terms : Terms) (c : Channel α)
    (h : Handle) :
    Prop where
  -- A push that reports that there is no room has not run its constructor.
  turned_down : c.ring.isFull = true → terms.policy c = .reject → ∀ during made,
    Step.run setup (.emplace name terms during made) s =
      (s, .emplaced ⟨terms.refusal, some (c.status h.role), []⟩ none)
  waits : c.ring.isFull = true → terms.policy c = .block ∨ terms.policy c = .overwrite ∧
    c.ring.unread = [] →
    ∀ during made, Step.run setup (.emplace name terms during made) s =
      (s, .emplaced ⟨.waiting, some (c.status h.role), (terms.policy c).waitingLog c.ring.capacity⟩
        none)
  runs_once : c.ring.isFull = false ∨ terms.policy c = .overwrite ∧ c.ring.unread ≠ [] →
    ∀ during made, ∃ report, (Step.run setup (.emplace name terms during made) s).2 =
      .emplaced report (some (Step.runAll setup during (s.beginEmplace name terms).session).2)
  broke_off : c.ring.isFull = false → ∀ during,
    Step.LeaveAlone setup (s.beginEmplace name terms).session c during → ∀ fault,
      Constructed setup s name terms during (.error fault) c h c.ring (.aborted fault) []
  unchanged : c.ring.isFull = false →
    ∀ fault, (Step.run setup (.emplace name terms [] (.error fault)) s).1 = s
  broke_off_full : c.ring.isFull = true → terms.policy c = .overwrite → ∀ oldest rest,
    c.ring.unread = oldest :: rest → ∃ ring, c.ring.LacksOldest rest ring ∧ ∀ during,
      Step.LeaveAlone setup (s.beginEmplace name terms).session c during → ∀ fault,
        Constructed setup s name terms during (.error fault) c h ring (.aborted fault)
          [.reported (.evicted c.ring.capacity), .dropped (.single oldest)]
  made : ∀ during, Step.LeaveAlone setup (s.beginEmplace name terms).session c during → ∀ value,
    GoesLikePush setup s name terms during value
  -- A constructor may also use the queue itself.
  gives_back : ∀ number policy evicted, (s.beginEmplace name terms).result = .granted number
    policy evicted →
    ∀ during, Step.AreSequential during →
      (Step.runAll setup during (s.beginEmplace name terms).session).2.any Answer.isWaiting =
        false →
      ∃ d g, (Step.runAll setup during (s.beginEmplace name terms).session).1.find? (.push number) =
        some (d, g) ∧
        GivesBack setup s name terms number during d

section Emplaces

variable {pending : List (Pending α)} {number : Nat} {policy : OverflowPolicy} {evicted : Option α}

theorem Reachable.gives_back (reachable : Reachable setup s pending)
    (began : (s.beginEmplace name terms).result = .granted number policy evicted)
    {during : List (Step α)} (sequential : Step.AreSequential during)
    (ends : (Step.runAll setup during (s.beginEmplace name terms).session).2.any Answer.isWaiting =
      false) :
    ∃ d g, (Step.runAll setup during (s.beginEmplace name terms).session).1.find? (.push number) =
      some (d, g) ∧
      GivesBack setup s name terms number during d := by
  have inside := (reachable.entered began).runAll sequential ends
  have under_way := (inside.between.sound.under_way number).mpr inside.between.number_lt
  obtain ⟨⟨d, g⟩, keeps⟩ := findChannel_isSome under_way
  obtain ⟨⟨before, after, place⟩, capacity, entries, holds⟩ := inside.located keeps
  -- The ring counts this push among those under way.
  have counted : pushCount d.keys = pushCount d.keys - 1 + 1 := by
    have kept : .push number ∈ d.keys := place.here
    have : 0 < pushCount d.keys := List.countP_pos_iff.mpr ⟨_, kept, rfl⟩
    omega
  rw [counted] at holds
  have returned := holds.returnAdmission
  refine ⟨d, g, keeps, returned.unread.trans holds.unread.symm, ?_, ?_⟩
  · rw [returned.len, holds.len]
    omega
  · intro fault
    rw [Step.run_granted began ends]
    dsimp only
    rw [Pending.leave_eq ⟨number, terms, policy, evicted⟩ (.error fault) keeps]
    dsimp only
    rw [Pending.closing_broke_off]

/-- The constructor of a push that is granted room is run, and its steps are taken once. -/
theorem Step.run_granted_once (setup : Setup α)
    (began : (s.beginEmplace name terms).result = .granted number policy evicted)
    (during : List (Step α)) (made : Except Fault α) :
    ∃ report, (Step.run setup (.emplace name terms during made) s).2 =
      .emplaced report (some (Step.runAll setup during (s.beginEmplace name terms).session).2) := by
  unfold Step.run
  simp only [began]
  split
  · exact ⟨_, rfl⟩
  · exact ⟨_, rfl⟩

theorem Reachable.runs_once (reachable : Reachable setup s pending)
    (found : s.find? (.name name) = some (c, h)) (accepts : ¬ h.refuses c terms)
    (admits : c.ring.isFull = false ∨ terms.policy c = .overwrite ∧ c.ring.unread ≠ [])
    (during : List (Step α)) (made : Except Fault α) :
    ∃ report, (Step.run setup (.emplace name terms during made) s).2 =
      .emplaced report (some (Step.runAll setup during (s.beginEmplace name terms).session).2) := by
  obtain ⟨-, capacity, entries, holds⟩ := reachable.located found
  have requested := holds.requested (terms.policy c)
  generalize request : c.ring.request (terms.policy c) = requesting at requested
  have granted {evicted : Option α} {ring : Ring α} {log : List (Effect α)}
      (granted : c.ring.request (terms.policy c) = .returned (.granted evicted) ring log) :=
    Step.run_granted_once setup (by rw [beginEmplace_granted found accepts granted]) during made
  cases requested with
  | room => exact granted request
  | evicting => exact granted request
  | denied kind full =>
    rw [holds.isFull_iff.mpr full, kind] at admits
    rcases admits with room | ⟨overwrites, -⟩
    · cases room
    · cases overwrites
  | waiting kind full =>
    rw [holds.isFull_iff.mpr full, holds.unread] at admits
    rcases admits with room | ⟨overwrites, contents⟩
    · cases room
    · rcases kind with blocks | ⟨-, nothing⟩
      · rw [overwrites] at blocks
        cases blocks
      · exact absurd nothing contents

/-- A constructor that breaks off in a push that had room. -/
theorem Reachable.broke_off (reachable : Reachable setup s pending)
    (found : s.find? (.name name) = some (c, h)) (accepts : ¬ h.refuses c terms)
    (room : c.ring.isFull = false) {during : List (Step α)}
    (leaves : Step.LeaveAlone setup (s.beginEmplace name terms).session c during) (fault : Fault) :
    Constructed setup s name terms during (.error fault) c h c.ring (.aborted fault) [] := by
  obtain ⟨-, capacity, entries, holds⟩ := reachable.located found
  have fits := holds.room_of_not_full room
  obtain ⟨ring, granted, -⟩ := holds.request_room fits (terms.policy c)
  have call := terms.emplaced_not_stored (holds.emplace_broke_off_room fits (terms.policy c) fault)
    nofun setup.kind
  have constructed := reachable.constructed found accepts granted leaves (.error fault)
  rwa [call] at constructed

/-- The same in one that made the oldest entry make way. -/
theorem Reachable.broke_off_full (reachable : Reachable setup s pending)
    (found : s.find? (.name name) = some (c, h)) (accepts : ¬ h.refuses c terms)
    (full : c.ring.isFull = true) (overwrites : terms.policy c = .overwrite) {oldest : α}
    {rest : List α} (contents : c.ring.unread = oldest :: rest) :
    ∃ ring, c.ring.LacksOldest rest ring ∧ ∀ during,
      Step.LeaveAlone setup (s.beginEmplace name terms).session c during → ∀ fault,
        Constructed setup s name terms during (.error fault) c h ring (.aborted fault)
          [.reported (.evicted c.ring.capacity), .dropped (.single oldest)] := by
  obtain ⟨-, capacity, entries, holds⟩ := reachable.located found
  obtain rfl : entries = oldest :: rest := holds.unread.symm.trans contents
  have limit := holds.isFull_iff.mp full
  obtain ⟨admitted, granted, -⟩ := holds.request_overwrite_full limit
  obtain ⟨ring, broke_off, left, freed⟩ := holds.emplace_broke_off_full limit
  refine ⟨ring, holds.lacksOldest limit left freed, fun during leaves fault => ?_⟩
  rw [← overwrites] at granted broke_off
  have call := terms.emplaced_not_stored (broke_off fault) nofun setup.kind
  have constructed := reachable.constructed found accepts granted leaves (.error fault)
  rwa [call, ← holds.capacity] at constructed

/-- Any push with a constructor, on any queue, under any policy. -/
theorem Reachable.emplaces (reachable : Reachable setup s pending)
    (found : s.find? (.name name) = some (c, h)) (accepts : ¬ h.refuses c terms) :
    Emplaces setup s name terms c h := by
  obtain ⟨⟨before, after, place⟩, capacity, entries, holds⟩ := reachable.located found
  obtain rfl := holds.unread
  have status : s.status? name = some (c.status h.role) := by
    rw [Session.status?, found]
    rfl
  constructor
  · intro full rejects during made
    have request := holds.request_reject_full (holds.isFull_iff.mp full)
    rw [← rejects] at request
    rw [Step.run_ended (place.begun_denied found accepts request), status]
  · intro full waits during made
    have request := holds.request_waiting (holds.isFull_iff.mp full) waits
    rw [Step.run_ended (place.begun_waiting found accepts request), status, holds.capacity]
  · exact fun admits during made => reachable.runs_once found accepts admits during made
  · exact fun room during leaves fault => reachable.broke_off found accepts room leaves fault
  · intro room fault
    have alone : Step.LeaveAlone setup (s.beginEmplace name terms).session c [] :=
      ⟨trivial, nofun, rfl⟩
    rw [(reachable.broke_off found accepts room alone fault).alone rfl, place.after_self]
  · exact fun full overwrites oldest rest contents =>
      reachable.broke_off_full found accepts full overwrites contents
  · exact fun during leaves value => reachable.goesLikePush found accepts leaves value
  · exact fun number policy evicted began during sequential ends => reachable.gives_back began
      sequential ends

end Emplaces

end Push

/-! ## Main result -/

/-- Without pushes under way, nothing is counted for them. -/
theorem Reachable.pushCount_eq_zero {setup : Setup α} {s : Session α}
    (reachable : Reachable setup s []) {d : Channel α} (member : d ∈ s.channels) :
    pushCount d.keys = 0 := by
  refine List.countP_eq_zero.mpr fun key here => ?_
  cases key with
  | name => exact Bool.false_ne_true
  | push number =>
    have under_way : number < s.pushes :=
      (reachable.between.sound.under_way number).mp (List.mem_flatMap.mpr ⟨d, member, here⟩)
    rw [reachable.between.pushes] at under_way
    exact absurd under_way (Nat.not_lt_zero number)

/-- Whatever constructors have broken off, a queue counts its unread entries and the pushes that are
under way, and nothing else. Any further push with a constructor gives back the room that it was
granted when this breaks off, and goes like a push of what it makes otherwise. -/
theorem constructors_return_room {setup : Setup α} {s : Session α} {pending : List (Pending α)}
    (reachable : Reachable setup s pending) :
    (∀ d ∈ s.channels, d.ring.len = d.ring.unread.length + pushCount d.keys) ∧
    (pending = [] → ∀ d ∈ s.channels, d.ring.len = d.ring.unread.length) ∧
    ∀ name terms c h, s.find? (.name name) = some (c, h) → ¬ h.refuses c terms →
      Emplaces setup s name terms c h := by
  have counts : ∀ d ∈ s.channels, d.ring.len = d.ring.unread.length + pushCount d.keys := by
    intro d member
    obtain ⟨capacity, entries, holds⟩ := (reachable.between.sound.consistent.each d member).rest
    rw [holds.len, holds.unread]
  refine ⟨counts, ?_, fun name terms c h found accepts => reachable.emplaces found accepts⟩
  rintro rfl d member
  rw [counts d member, reachable.pushCount_eq_zero member, Nat.add_zero]

/-- A constructor broke off around a push that was turned down, and one breaks off in the full
queue. -/
theorem constructors_return_room_of_full_queue :
    let setup : Setup Nat := ⟨.plain, none, .endless⟩
    let fails : Except Fault Nat := .error .constructorFailed
    let steps : List (Step Nat) :=
      [.create "q" (.queue (.ofCapacity 2)), .act "q" (.push (.asked .block) 1),
        .emplace "q" (.asked .block) [.emplace "q" (.asked .reject) [] fails] fails,
        .act "q" (.push (.asked .reject) 2)]
    let s := (Step.runAll setup steps .empty).1
    let during : List (Step Nat) := [.create "p" (.queue (.ofCapacity 1))]
    Reachable setup s [] ∧ (∀ d ∈ s.channels, d.ring.len = d.ring.unread.length) ∧
      ∃ c h, s.find? (.name "q") = some (c, h) ∧ ¬ h.refuses c (.asked .overwrite) ∧
        c.ring.unread = [1, 2] ∧
        ∃ ring, c.ring.LacksOldest [2] ring ∧
          Constructed setup s "q" (.asked .overwrite) during fails c h ring
            (.aborted .constructorFailed) [.reported (.evicted c.ring.capacity),
              .dropped (.single 1)] := by
  intro setup fails steps s during
  have sequential : Step.AreSequential steps := ⟨trivial, rfl, ⟨trivial, trivial⟩, rfl, trivial⟩
  have finished : (Step.runAll setup steps .empty).2.any Answer.isWaiting = false := by
    decide +kernel
  have reachable : Reachable setup s [] := Reachable.start.runAll sequential finished
  obtain ⟨-, counts, emplaces⟩ := constructors_return_room reachable
  have seen : (s.find? (.name "q")).map
    (fun (c, h) => (h.role, c.policy, c.keys, c.ring.isFull, c.ring.unread)) =
      some (.owner, none, [.name "q"], true, [1, 2]) := by decide +kernel
  obtain ⟨⟨c, h⟩, found, facts⟩ := Option.map_eq_some_iff.mp seen
  simp only [Prod.mk.injEq] at facts
  obtain ⟨owner, plain, keys, full, contents⟩ := facts
  have accepts : ¬ h.refuses c (.asked .overwrite) := by simp [Handle.refuses, owner, plain]
  have leaves : Step.LeaveAlone setup (s.beginEmplace "q" (.asked .overwrite)).session
    c during := by
    refine ⟨⟨trivial, trivial⟩, ?_, by decide +kernel⟩
    rw [keys]
    decide
  obtain ⟨ring, lacks, constructed⟩ :=
    (emplaces "q" (.asked .overwrite) c h found accepts).broke_off_full full rfl 1 [2] contents
  exact ⟨reachable, counts rfl, c, h, found, accepts, contents, ring, lacks,
    constructed during leaves _⟩

end RingQueue.Session
