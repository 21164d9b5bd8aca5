import RingQueue.Proofs.Protocol.Alike
import RingQueue.Proofs.Session.Calls

/-!
Sessions that no caller can tell apart.

In alike sessions the same handles reach alike rings. Any steps get the same answers in both, with
the same effects, and lead to sessions that are alike again (`Alike.runAll`); so the sessions are
indistinguishable (`Alike.indistinguishable`). The steps may be of all kinds, with threads and with
constructors that run steps of their own.
-/
namespace RingQueue.Session

variable {α β : Type}

/-! ## Alike channels -/

/-- The same handles under the same policy, with alike rings. -/
structure Channel.Alike (c c' : Channel α) : Prop where
  ring : c.ring.Alike c'.ring
  policy : c'.policy = c.policy
  handles : c'.handles = c.handles

namespace Channel.Alike

variable {c c' : Channel α}

theorem refl (c : Channel α) : c.Alike c := ⟨.refl c.ring, rfl, rfl⟩

theorem handle? (h : c.Alike c') (key : Key) : c'.handle? key = c.handle? key := by
  rw [Channel.handle?, Channel.handle?, h.handles]

theorem isReached (h : c.Alike c') (key : Key) : c'.isReached key = c.isReached key := by
  rw [Channel.isReached, Channel.isReached, h.handle?]

theorem without (h : c.Alike c') (key : Key) : c'.without key = c.without key := by
  rw [Channel.without, Channel.without, h.handles]

theorem isSole (h : c.Alike c') : c'.isSole = c.isSole := by
  rw [Channel.isSole, Channel.isSole, h.handles]

theorem overflowPolicy (h : c.Alike c') : c'.overflowPolicy = c.overflowPolicy := by
  rw [Channel.overflowPolicy, Channel.overflowPolicy, h.policy]

theorem status (h : c.Alike c') (role : Role) : c'.status role = c.status role := by
  simp only [Channel.status, h.ring.len, h.ring.capacity, h.ring.isEmpty, h.ring.isFull, h.isSole]

theorem record (h : c.Alike c') (role : Role) : c'.record role = c.record role := by
  simp only [Channel.record, Channel.typeName, h.policy, h.ring.capacity, h.ring.len, h.isSole]

theorem withRing (h : c.Alike c') {ring ring' : Ring α} (rings : ring.Alike ring') :
    Channel.Alike { c with ring } { c' with ring := ring' } := ⟨rings, h.policy, h.handles⟩

theorem withHandles (h : c.Alike c') (handles : List Handle) :
    Channel.Alike { c with handles } { c' with handles } := ⟨h.ring, h.policy, rfl⟩

theorem keeping (h : c.Alike c') (key : Key) (number : Nat) :
    (c.keeping key number).Alike (c'.keeping key number) :=
  ⟨h.ring, h.policy, by rw [Channel.keeping, Channel.keeping, h.handles]⟩

end Channel.Alike

section Channels

variable {channels channels' : List (Channel α)}

theorem findChannel_alike (h : List.Forall₂ Channel.Alike channels channels') (key : Key) :
    (findChannel key channels = none ∧ findChannel key channels' = none) ∨
      ∃ c c' handle, findChannel key channels = some (c, handle) ∧
        findChannel key channels' = some (c', handle) ∧ c.Alike c' := by
  induction h with
  | nil => exact .inl ⟨rfl, rfl⟩
  | @cons c c' rest rest' first others ih =>
    simp only [findChannel, List.findSome?_cons, first.handle?]
    cases c.handle? key with
    | none => exact ih
    | some handle => exact .inr ⟨c, c', handle, rfl, rfl, first⟩

theorem names_alike (h : List.Forall₂ Channel.Alike channels channels') :
    (channels'.flatMap fun c => c.handles.filterMap (·.name)) =
      channels.flatMap fun c => c.handles.filterMap (·.name) := by
  induction h with
  | nil => rfl
  | cons first others ih => rw [List.flatMap_cons, List.flatMap_cons, ih, first.handles]

/-- The channels are changed one by one, in the same way. -/
theorem map_alike (h : List.Forall₂ Channel.Alike channels channels') {f f' : Channel α → Channel α}
    (each : ∀ c c', c.Alike c' → (f c).Alike (f' c')) :
    List.Forall₂ Channel.Alike (channels.map f) (channels'.map f') := by
  induction h with
  | nil => exact .nil
  | cons first others ih => exact .cons (each _ _ first) ih

theorem setRing_alike (h : List.Forall₂ Channel.Alike channels channels') (key : Key)
    {ring ring' : Ring α} (rings : ring.Alike ring') :
    List.Forall₂ Channel.Alike (setRing key ring channels) (setRing key ring' channels') := by
  refine map_alike h fun c c' alike => ?_
  rw [alike.isReached]
  split
  · exact alike.withRing rings
  · exact alike

theorem removeChannel_alike (h : List.Forall₂ Channel.Alike channels channels') (key : Key) :
    List.Forall₂ Channel.Alike (removeChannel key channels) (removeChannel key channels') := by
  unfold removeChannel
  induction h with
  | nil => exact .nil
  | cons first others ih =>
    rw [List.filter_cons, List.filter_cons, first.isReached]
    split
    · exact .cons first ih
    · exact ih

theorem append_alike {others others' : List (Channel α)}
    (h : List.Forall₂ Channel.Alike channels channels')
    (more : List.Forall₂ Channel.Alike others others') :
    List.Forall₂ Channel.Alike (channels ++ others) (channels' ++ others') := by
  induction h with
  | nil => exact more
  | cons first _ ih => exact .cons first ih

/-- The same handles are given up, with the same effects. -/
structure Dropped.Alike (d d' : Dropped α) : Prop where
  channels : List.Forall₂ Channel.Alike d.channels d'.channels
  effects : d'.effects = d.effects
  fault : d'.fault = d.fault

theorem dropHandle_alike (k : EntryKind α) (h : List.Forall₂ Channel.Alike channels channels')
    (key : Key) : (dropHandle k key channels).Alike (dropHandle k key channels') := by
  induction h with
  | nil => exact ⟨.nil, rfl, rfl⟩
  | cons first others ih =>
    simp only [dropHandle, first.isReached, first.without, first.ring.release]
    split
    · exact ⟨.cons first ih.channels, ih.effects, ih.fault⟩
    · split
      · exact ⟨others, rfl, rfl⟩
      · exact ⟨.cons (first.withHandles _) others, rfl, rfl⟩

theorem dropHandles_alike (k : EntryKind α) (h : List.Forall₂ Channel.Alike channels channels')
    (names : List String) : (dropHandles k names channels).Alike
    (dropHandles k names channels') := by
  induction names generalizing channels channels' with
  | nil => exact ⟨h, rfl, rfl⟩
  | cons name names ih =>
    have first := dropHandle_alike k h (.name name)
    have later := ih first.channels
    refine ⟨later.channels, ?_, ?_⟩
    · simp only [dropHandles, first.effects, later.effects]
    · simp only [dropHandles, first.fault, later.fault]

end Channels

/-! ## Alike sessions -/

/-- The same handles reach alike rings, with the same blocks and pushes. -/
structure Alike (s t : Session α) : Prop where
  channels : List.Forall₂ Channel.Alike s.channels t.channels
  blocks : t.blocks = s.blocks
  pushes : t.pushes = s.pushes

/-- The same result with the same effects, in alike sessions. -/
structure Reply.Matches (reply reply' : Reply α β) : Prop where
  session : Session.Alike reply.session reply'.session
  result : reply'.result = reply.result
  effects : reply'.effects = reply.effects

theorem forall₂_refl (channels : List (Channel α)) : List.Forall₂ Channel.Alike channels channels :=
  List.forall₂_same.mpr fun c _ => .refl c

namespace Alike

variable {s t : Session α}

theorem after (h : Alike s t) {channels channels' : List (Channel α)}
    (alike : List.Forall₂ Channel.Alike channels channels') (effects : List (Effect α)) :
    Alike (s.after channels effects) (t.after channels' effects) :=
  ⟨alike, by rw [Session.after, Session.after, h.blocks], h.pushes⟩

theorem find? (h : Alike s t) (key : Key) :
    (s.find? key = none ∧ t.find? key = none) ∨
      ∃ c c' handle, s.find? key = some (c, handle) ∧ t.find? key = some (c', handle) ∧
        c.Alike c' :=
  findChannel_alike h.channels key

theorem status? (h : Alike s t) (name : String) : t.status? name = s.status? name := by
  unfold Session.status?
  rcases h.find? (.name name) with ⟨nobody, nobody'⟩ | ⟨c, c', handle, found, found', alike⟩
  · rw [nobody, nobody']
  · rw [found, found', Option.map_some, Option.map_some, alike.status]

theorem names (h : Alike s t) : t.names = s.names := by
  rw [Session.names, Session.names, names_alike h.channels]

/-! ## Replies -/

theorem answer (h : Alike s t) (result : β) : (s.answer result).Matches (t.answer result) :=
  ⟨h, rfl, rfl⟩

theorem call (h : Alike s t) (key : Key) {made made' : Call α β} (calls : made.Alike made')
    (present : β → Result α) : (s.call key made present).Matches (t.call key made' present) := by
  obtain ⟨outcome, ring, effects⟩ := made
  obtain ⟨outcome', ring', effects'⟩ := made'
  obtain ⟨same, rings, rfl⟩ : outcome' = outcome ∧ ring.Alike ring' ∧ effects' = effects :=
    ⟨calls.outcome, calls.ring, calls.effects⟩
  obtain rfl := same
  exact ⟨h.after (setRing_alike h.channels key rings) _, rfl, rfl⟩

theorem place (h : Alike s t) (k : EntryKind α) {channels channels' : List (Channel α)}
    (alike : List.Forall₂ Channel.Alike channels channels') {new new' : Channel α}
    (news : new.Alike new') (log : List (Effect α)) (result : Result α) :
    (s.place k channels new log result).Matches (t.place k channels' new' log result) := by
  have dropped := dropHandles_alike k alike (new.handles.filterMap (·.name))
  unfold Session.place
  rw [news.handles]
  refine ⟨?_, ?_, ?_⟩
  · dsimp only
    rw [dropped.effects]
    exact h.after (append_alike dropped.channels (.cons news .nil)) _
  · dsimp only
    rw [dropped.fault]
  · dsimp only
    rw [dropped.effects]

theorem placeBuilt (h : Alike s t) (k : EntryKind α) (name : String)
    (built : Built α (Ring α × Option Policy)) (result : Result α) :
    (s.placeBuilt k name built result).Matches (t.placeBuilt k name built result) := by
  obtain ⟨made, effects⟩ := built
  cases made with
  | error fault => exact ⟨h.after h.channels effects, rfl, rfl⟩
  | ok new => exact h.place k h.channels (.refl _) effects result

/-! ## Actions -/

section Actions

variable (setup : Setup α) (name : String)

theorem create (h : Alike s t) (creation : Creation α) :
    (s.create setup name creation).Matches (t.create setup name creation) := by
  rw [create_eq, create_eq]
  cases creation.build setup with
  | error e => exact h.answer _
  | ok built => exact h.placeBuilt setup.kind name built _

variable {c c' : Channel α}

theorem split (h : Alike s t) (alike : c.Alike c') (producer consumer : String) :
    (s.split setup name producer consumer c).Matches (t.split setup name producer consumer c') :=
  h.place setup.kind (removeChannel_alike h.channels (.name name)) (alike.withHandles _) [] .done

theorem drop (h : Alike s t) : (s.drop setup name).Matches (t.drop setup name) := by
  have dropped := dropHandle_alike setup.kind h.channels (.name name)
  unfold Session.drop
  dsimp only
  rw [dropped.effects, dropped.fault]
  exact ⟨h.after dropped.channels _, rfl, rfl⟩

theorem cloneProducer (h : Alike s t) (alike : c.Alike c') (new : String) :
    (s.cloneProducer setup name new c).Matches (t.cloneProducer setup name new c') := by
  have dropped := dropHandle_alike setup.kind (removeChannel_alike h.channels (.name name))
    (.name new)
  unfold Session.cloneProducer
  dsimp only
  rw [dropped.effects, dropped.fault, alike.without]
  exact ⟨h.after (append_alike dropped.channels (.cons (alike.withHandles _) .nil)) _, rfl, rfl⟩

theorem cloneQueue (h : Alike s t) (alike : c.Alike c') (new : String) :
    (s.cloneQueue setup name new c).Matches (t.cloneQueue setup name new c') := by
  have made := alike.ring.duplicate setup.kind
  have channels := setRing_alike h.channels (.name name) made.ring
  unfold Session.cloneQueue
  dsimp only
  rw [made.outcome, made.effects, alike.policy]
  split
  · exact h.place setup.kind channels (.refl _) _ _
  · exact ⟨h.after channels _, rfl, rfl⟩
  · exact ⟨h.after channels _, rfl, rfl⟩

theorem pushFromThread (h : Alike s t) (alike : c.Alike c') (consumer : String) (values : List α)
    (pops : Nat) : (s.pushFromThread name consumer values pops c).Matches
    (t.pushFromThread name consumer values pops c') := by
  unfold Session.pushFromThread
  rcases h.find? (.name consumer) with ⟨nobody, nobody'⟩ | ⟨source, source', handle, found,
    found', sources⟩
  · rw [nobody, nobody']
    exact h.answer _
  · rw [found, found']
    dsimp only
    obtain ⟨named, role, keptBy⟩ := handle
    cases role with
    | owner | producer => exact h.answer _
    | consumer =>
      dsimp only
      rw [alike.isReached, sources.policy]
      split
      · rcases Protocol.handOver_alike alike.ring values pops with
          ⟨waits, waits'⟩ | ⟨popped, ring, ring', drained, drained', rings⟩
        · rw [waits, waits']
          exact h.answer _
        · rw [drained, drained']
          exact ⟨h.after (setRing_alike h.channels _ rings) _, rfl, rfl⟩
      · rcases Protocol.handOver_alike alike.ring values 0 with
          ⟨waits, waits'⟩ | ⟨nothing, filled, filled', pushed, pushed', fills⟩
        · rw [waits, waits']
          exact h.answer _
        · rw [pushed, pushed']
          rcases Protocol.handOver_alike sources.ring [] pops with
            ⟨waits, waits'⟩ | ⟨popped, drained, drained', pulled, pulled', drains⟩
          · rw [waits, waits']
            exact h.answer _
          · rw [pulled, pulled']
            exact ⟨h.after (setRing_alike (setRing_alike h.channels _ fills) _ drains) _, rfl, rfl⟩

theorem exclusive_apply (alike : c.Alike c') (operation : Exclusive α) :
    (operation.apply setup.kind c.ring).Alike (operation.apply setup.kind c'.ring) := by
  cases operation with
  | reserve capacity => exact (alike.ring.reserve setup.kind capacity).map _
  | clear => exact (alike.ring.clear setup.kind).map _
  | popFront => exact alike.ring.popFront.map _
  | front =>
    rw [Exclusive.apply, Exclusive.apply, alike.ring.front?]
    exact .returned alike.ring _ _
  | tryPushBack value => exact ((alike.ring.push .reject value).map _).map _
  | forcePushBack value => exact ((alike.ring.push .overwrite value).map _).map _

/-- Alike channels offer alike calls. -/
theorem call? (alike : c.Alike c') (role : Role) (action : Action α) :
    Option.Rel Call.Alike (action.call? setup c role) (action.call? setup c' role) := by
  cases action with
  | push terms value =>
    cases terms with
    | asked policy => exact .some ((alike.ring.push policy value).map _)
    | configured =>
      rw [Action.call?, Action.call?, alike.overflowPolicy]
      exact .some ((alike.ring.pushUnder setup.kind _ value).map _)
  | pushWithin timeout value =>
    exact .some ((alike.ring.pushBackWithin setup.clock timeout value).map _)
  | popFront => exact .some (alike.ring.popFront.map _)
  | popWithin timeout | readWithin timeout =>
    exact .some ((alike.ring.popFrontWithin setup.clock timeout).map _)
  | read => exact .some ((alike.ring.popFront.map _).map _)
  | front =>
    unfold Action.call?
    dsimp only
    split
    · exact .none
    · exact .some ((alike.ring.peekClone _).map _)
  | drain limit => exact .some ((alike.ring.drain limit).map _)
  | reserve capacity => exact .some ((alike.ring.reserve setup.kind capacity).map _)
  | clear => exact .some ((alike.ring.clear setup.kind).map _)
  | exclusive operation =>
    unfold Action.call?
    dsimp only
    rw [alike.isSole]
    split
    · exact .some ((exclusive_apply setup alike operation).map _)
    · exact .none
  | _ => exact .none

theorem useHandle (h : Alike s t) (alike : c.Alike c') (role : Role) (action : Action α) :
    (s.useHandle setup name c role action).Matches (t.useHandle setup name c' role action) := by
  have calls := call? setup alike role action
  generalize made : action.call? setup c role = call at calls
  generalize made' : action.call? setup c' role = call' at calls
  cases calls with
  | some calls =>
    rw [useHandle_call s name made, useHandle_call t name made']
    exact h.call _ calls id
  | none =>
    cases action with
    | split producer consumer => exact h.split setup name alike producer consumer
    | drop => exact h.drop setup name
    | observe => exact h.answer _
    | describe onLines =>
      rw [Session.useHandle, Session.useHandle, alike.record]
      exact h.answer _
    | pushFromThread consumer values pops => exact h.pushFromThread name alike consumer values pops
    | clone new =>
      unfold Session.useHandle
      dsimp only
      split
      · exact h.cloneProducer setup name alike new
      · exact h.cloneQueue setup name alike new
    | front =>
      have owner : role = .owner := by simpa [Action.call?] using made
      rw [Session.useHandle, Session.useHandle, if_pos owner, if_pos owner, alike.ring.front?]
      exact h.answer _
    | blocks =>
      rw [Session.useHandle, Session.useHandle, h.blocks]
      exact h.answer _
    | policy =>
      unfold Session.useHandle
      dsimp only
      rw [alike.policy]
      split <;> exact h.answer _
    | exclusive operation =>
      have shared : ¬ c.isSole := by simpa [Action.call?] using made
      have shared' : ¬ c'.isSole := by rwa [alike.isSole]
      rw [Session.useHandle, Session.useHandle, Session.exclusive, Session.exclusive, if_neg shared,
        if_neg shared']
      exact h.answer _
    | push terms value => cases terms <;> cases made
    | _ => cases made

theorem perform (h : Alike s t) (action : Action α) :
    (s.perform setup name action).Matches (t.perform setup name action) := by
  unfold Session.perform
  rcases h.find? (.name name) with ⟨nobody, nobody'⟩ | ⟨c, c', handle, found, found', alike⟩
  · rw [nobody, nobody']
    cases action <;> exact h.answer _
  · rw [found, found']
    dsimp only
    rw [alike.policy]
    split
    · exact h.answer _
    · split
      · exact h.answer _
      · exact h.useHandle setup name alike handle.role action

/-! ## Pushes with a constructor -/

theorem beginEmplace (h : Alike s t) (terms : Terms) :
    (s.beginEmplace name terms).Matches (t.beginEmplace name terms) := by
  unfold Session.beginEmplace
  rcases h.find? (.name name) with ⟨nobody, nobody'⟩ | ⟨c, c', handle, found, found', alike⟩
  · rw [nobody, nobody']
    exact h.answer _
  · rw [found, found']
    dsimp only
    rw [alike.policy, alike.overflowPolicy]
    have keeps : ∀ {channels channels' : List (Channel α)}, List.Forall₂ Channel.Alike
      channels channels' →
        List.Forall₂ Channel.Alike
          (channels.map fun c => if c.isReached (.name name) then c.keeping (.name name)
            s.pushes else c)
          (channels'.map fun c => if c.isReached (.name name) then c.keeping (.name name)
            s.pushes else c) := by
      intro channels channels' all
      refine map_alike all fun c c' alike => ?_
      rw [alike.isReached]
      split
      · exact alike.keeping _ _
      · exact alike
    split
    · exact h.answer _
    · have made := alike.ring.request
      have channels (policy : OverflowPolicy) := setRing_alike h.channels (.name name)
        (made policy).ring
      have reached (policy : OverflowPolicy) := h.after (channels policy)
      cases terms <;>
      · dsimp only
        rw [(made _).outcome, (made _).effects, h.pushes]
        split
        · exact ⟨⟨keeps (channels _), congrArg (Blocks.afterAll · _) h.blocks, rfl⟩, rfl, rfl⟩
        · exact ⟨reached _ _, rfl, rfl⟩
        · exact ⟨reached _ _, rfl, rfl⟩
        · exact ⟨reached _ _, rfl, rfl⟩

/-- Matching replies still match once the push is over and no longer keeps its handle. -/
theorem left {reply reply' : Reply α (Result α)} (matching : reply.Matches reply') (number : Nat) :
    let dropped := dropHandle setup.kind (.push number) reply.session.channels
    let dropped' := dropHandle setup.kind (.push number) reply'.session.channels
    Reply.Matches
      ⟨{ reply.session.after dropped.channels dropped.effects with pushes := number },
        resultOf dropped.fault reply.result, reply.effects ++ dropped.effects⟩
      ⟨{ reply'.session.after dropped'.channels dropped'.effects with pushes := number },
        resultOf dropped'.fault reply'.result, reply'.effects ++ dropped'.effects⟩ := by
  have dropped := dropHandle_alike setup.kind matching.session.channels (.push number)
  dsimp only
  rw [dropped.effects, dropped.fault, matching.result, matching.effects]
  exact ⟨⟨dropped.channels, (matching.session.after dropped.channels _).blocks, rfl⟩, rfl, rfl⟩

theorem endEmplace (h : Alike s t) (number : Nat) (terms : Terms) (policy : OverflowPolicy)
    (evicted : Option α) (made : Except Fault α) :
    (s.endEmplace setup number terms policy evicted made).Matches
      (t.endEmplace setup number terms policy evicted made) := by
  unfold Session.endEmplace
  rcases h.find? (.push number) with ⟨nobody, nobody'⟩ | ⟨c, c', handle, found, found', alike⟩
  · rw [nobody, nobody']
    exact h.answer _
  · rw [found, found']
    dsimp only
    have settled := alike.ring.settle evicted made
    have reported : ((c.ring.settle evicted made).andThen (Ring.report setup.kind none)).Alike
        ((c'.ring.settle evicted made).andThen (Ring.report setup.kind none)) :=
      settled.andThen fun pushed _ _ h => h.report setup.kind none pushed
    cases terms with
    | asked => exact left setup (h.call _ settled _) number
    | configured => exact left setup (h.call _ reported _) number

end Actions

/-- Handles are dropped at the end with the same effects. -/
theorem close (h : Alike s t) (setup : Setup α) : (s.close setup).Matches (t.close setup) := by
  have dropped := dropHandles_alike setup.kind h.channels s.names
  unfold Session.close
  rw [h.names]
  dsimp only
  rw [dropped.effects, dropped.fault]
  exact ⟨h.after dropped.channels _, rfl, rfl⟩

end Alike

/-! ## Steps -/

mutual

theorem Alike.run {setup : Setup α} : (step : Step α) → {s t : Session α} → Alike s t →
    Alike (Step.run setup step s).1 (Step.run setup step t).1 ∧
      (Step.run setup step t).2 = (Step.run setup step s).2
  | .create name creation, s, t, h => by
    have made := h.create setup name creation
    unfold Step.run
    dsimp only
    exact ⟨made.session, by rw [made.result, made.effects, made.session.status?]⟩
  | .act name action, s, t, h => by
    have done := h.perform setup name action
    unfold Step.run
    dsimp only
    exact ⟨done.session, by rw [done.result, done.effects, done.session.status?]⟩
  | .emplace name terms during made, s, t, h => by
    have begun := h.beginEmplace name terms
    unfold Step.run
    dsimp only
    rw [begun.result]
    cases (s.beginEmplace name terms).result with
    | ended result => exact ⟨begun.session, by rw [begun.effects, begun.session.status?]⟩
    | granted number policy evicted =>
      obtain ⟨inside, answers⟩ := Alike.runAll during begun.session
      dsimp only
      rw [answers, begun.effects]
      split
      · exact ⟨inside, by rw [inside.status?]⟩
      · have ended := inside.endEmplace setup number terms policy evicted made
        exact ⟨ended.session, by rw [ended.result, ended.effects, ended.session.status?]⟩

/-- Steps get the same answers in alike sessions, and leave them alike. -/
theorem Alike.runAll {setup : Setup α} : (steps : List (Step α)) → {s t : Session α} → Alike s t →
    Alike (Step.runAll setup steps s).1 (Step.runAll setup steps t).1 ∧
      (Step.runAll setup steps t).2 = (Step.runAll setup steps s).2
  | [], s, t, h => ⟨h, rfl⟩
  | step :: rest, s, t, h => by
    obtain ⟨first, answer⟩ := Alike.run step h
    unfold Step.runAll
    dsimp only
    rw [answer]
    split
    · exact ⟨first, rfl⟩
    · obtain ⟨later, answers⟩ := Alike.runAll rest first
      exact ⟨later, by rw [answers]⟩

end

/-! ## Indistinguishable sessions -/

/-- All that can be seen of steps and of the end of the session after them: the answers, the blocks
that are left, what is done on the side when the remaining handles are dropped, and the entry that
breaks off then. -/
def observe (setup : Setup α) (s : Session α) (steps : List (Step α)) :
    Transcript α × Option Fault :=
  let (last, answers) := Step.runAll setup steps s
  let closed := last.close setup
  (⟨answers, closed.session.blocks, closed.effects⟩, closed.result)

/-- A whole session is observed from its beginning on. -/
theorem run_eq_observe (setup : Setup α) (steps : List (Step α)) :
    Session.run setup steps = (observe setup .empty steps).1 := rfl

/-- No steps lead to any difference that can be seen. -/
def Indistinguishable (setup : Setup α) (s t : Session α) : Prop :=
  ∀ steps, observe setup s steps = observe setup t steps

theorem Alike.indistinguishable {s t : Session α} (h : Alike s t) (setup : Setup α) :
    Indistinguishable setup s t := by
  intro steps
  obtain ⟨last, answers⟩ := Alike.runAll (s := s) steps h
  have closed := last.close setup
  unfold observe
  dsimp only
  rw [answers, closed.session.blocks, closed.effects, closed.result]

/-- The ring of one channel can be exchanged for an alike ring. -/
theorem setRing_indistinguishable (setup : Setup α) (s : Session α) (key : Key)
    {ring ring' : Ring α} (rings : ring.Alike ring') :
    Indistinguishable setup { s with channels := setRing key ring s.channels }
      { s with channels := setRing key ring' s.channels } := by
  have alike : Alike { s with channels := setRing key ring s.channels }
      { s with channels := setRing key ring' s.channels } :=
    ⟨setRing_alike (forall₂_refl s.channels) key rings, rfl, rfl⟩
  exact alike.indistinguishable setup

end RingQueue.Session
