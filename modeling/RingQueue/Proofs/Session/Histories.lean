import RingQueue.Proofs.Ring.Logs
import RingQueue.Proofs.Session.Conservation

/-!
Sessions as one operation after the other.

A constructor runs steps of its own inside a push. A history has them all in the order in which they
happen: the push enters, the operations of its constructor follow, and then the push leaves. Pushes
that are under way end in the opposite order of their beginnings. Each operation leaves the session
sound, however entries are cloned and dropped (`History.sound`), and what steps do is a history
(`Step.runAll_history`).
-/
namespace RingQueue.Session

variable {α β : Type}

/-! ## Operations -/

/-- A push that is under way: its number, and what its end depends on. -/
structure Pending (α : Type) where
  number : Nat
  terms : Terms
  policy : OverflowPolicy
  evicted : Option α

inductive Operation (α : Type) where
  | create (name : String) (creation : Creation α)
  | act (name : String) (action : Action α)
  -- Asks for room for an entry that a constructor is to make.
  | enter (name : String) (terms : Terms)
  -- Ends a push whose constructor is done.
  | leave (push : Pending α) (made : Except Fault α)

/-- The reply of an operation that is over. -/
def Reply.ended (reply : Reply α (Result α)) : Reply α (Begun α) :=
  ⟨reply.session, .ended reply.result, reply.effects⟩

def Operation.run (setup : Setup α) (s : Session α) : Operation α → Reply α (Begun α)
  | .create name creation => (s.create setup name creation).ended
  | .act name action => (s.perform setup name action).ended
  | .enter name terms => s.beginEmplace name terms
  | .leave push made =>
    (s.endEmplace setup push.number push.terms push.policy push.evicted made).ended

/-- With what results an operation of the caller alone ends, and which pushes are under way then. An
operation that waits never ends. -/
inductive Operation.Ends : Operation α → List (Pending α) → Begun α → List (Pending α) → Prop where
  | created {name : String} {creation : Creation α} {pending : List (Pending α)}
      {result : Result α} :
      Ends (.create name creation) pending (.ended result) pending
  | acted {name : String} {action : Action α} {pending : List (Pending α)} {result : Result α}
      (sequential : action.isSequential = true) (finished : result ≠ .waiting) :
      Ends (.act name action) pending (.ended result) pending
  | turnedDown {name : String} {terms : Terms} {pending : List (Pending α)} {result : Result α}
      (finished : result ≠ .waiting) : Ends (.enter name terms) pending (.ended result) pending
  | entered {name : String} {terms : Terms} {pending : List (Pending α)} {number : Nat}
      {policy : OverflowPolicy} {evicted : Option α} :
      Ends (.enter name terms) pending (.granted number policy evicted)
        (⟨number, terms, policy, evicted⟩ :: pending)
  | left {push : Pending α} {made : Except Fault α} {pending : List (Pending α)}
      {result : Result α} :
      Ends (.leave push made) (push :: pending) (.ended result) pending

/-- An operation that was made: the session before it, and its reply. -/
structure Deed (α : Type) where
  before : Session α
  operation : Operation α
  reply : Reply α (Begun α)

/-- What operations lead to, with all that was done on the way and the pushes that are under way. -/
inductive History (setup : Setup α) (first : Session α) :
    List (Deed α) → Session α → List (Pending α) → Prop where
  | start : History setup first [] first []
  | next {deeds : List (Deed α)} {s : Session α} {pending pending' : List (Pending α)}
      (operation : Operation α) (before : History setup first deeds s pending)
      (ends : operation.Ends pending (operation.run setup s).result pending') :
      History setup first (deeds ++ [⟨s, operation, operation.run setup s⟩])
        (operation.run setup s).session pending'

/-- One more action. -/
theorem History.acted {setup : Setup α} {first s t : Session α} {deeds : List (Deed α)}
    {pending : List (Pending α)} {name : String} {action : Action α} {result : Result α}
    {effects : List (Effect α)} (history : History setup first deeds s pending)
    (performed : s.perform setup name action = ⟨t, result, effects⟩)
    (sequential : action.isSequential = true) (finished : result ≠ .waiting) :
    History setup first (deeds ++ [⟨s, .act name action, ⟨t, .ended result, effects⟩⟩])
      t pending := by
  have next := History.next (.act name action) history (.acted sequential (by rwa [performed]))
  simp only [Operation.run, performed] at next
  exact next

/-- All that was done on the side. -/
def logOf (deeds : List (Deed α)) : List (Effect α) := deeds.flatMap fun d => d.reply.effects

@[simp] theorem logOf_append (deeds others : List (Deed α)) :
    logOf (deeds ++ others) = logOf deeds ++ logOf others :=
  List.flatMap_append

@[simp] theorem logOf_cons (d : Deed α) (deeds : List (Deed α)) :
    logOf (d :: deeds) = d.reply.effects ++ logOf deeds := rfl

@[simp] theorem logOf_singleton (d : Deed α) : logOf [d] = d.reply.effects :=
  List.flatMap_singleton _ _

/-! ## How entries are dropped does not count for the channels -/

/-- The same setup with entries that can always be dropped. -/
def Setup.droppable (setup : Setup α) : Setup α :=
  { setup with kind := { setup.kind with dropFails := none } }

theorem dropHandle_channels (k l : EntryKind α) (key : Key) (channels : List (Channel α)) :
    (dropHandle k key channels).channels = (dropHandle l key channels).channels := by
  induction channels with
  | nil => rfl
  | cons c rest ih =>
    simp only [dropHandle, ih]
    split
    · rfl
    · split <;> rfl

theorem dropHandles_channels (k l : EntryKind α) (names : List String)
    (channels : List (Channel α)) : (dropHandles k names channels).channels =
    (dropHandles l names channels).channels := by
  induction names generalizing channels with
  | nil => rfl
  | cons name names ih =>
    simp only [dropHandles]
    rw [dropHandle_channels k l, ih]

/-- Two replies that differ at most in what was done on the side, and in whether an entry broke off.
-/
structure Reply.Alike (reply other : Reply α (Result α)) : Prop where
  channels : reply.session.channels = other.session.channels
  pushes : reply.session.pushes = other.session.pushes
  finished : reply.result ≠ .waiting → other.result ≠ .waiting

theorem Reply.Alike.refl (reply : Reply α (Result α)) : reply.Alike reply := ⟨rfl, rfl, id⟩

/-- Soundness looks at channels and pushes only. -/
theorem Sound.congr {s t : Session α} (sound : s.Sound) (channels : t.channels = s.channels)
    (pushes : t.pushes = s.pushes) : t.Sound where
  consistent := channels ▸ sound.consistent
  under_way := by
    rw [channels, pushes]
    exact sound.under_way

theorem place_alike (s : Session α) (k l : EntryKind α) (channels : List (Channel α))
    (new : Channel α) (log other : List (Effect α)) {result : Result α} (ended : result ≠ .waiting)
    (sound : l.dropFails = none) (consistent : Consistent channels) :
    (s.place k channels new log result).Alike (s.place l channels new other result) where
  channels := congrArg (· ++ [new]) (dropHandles_channels k l _ channels)
  pushes := rfl
  finished := by
    intro _
    simp only [place, (consistent.dropHandles sound _).fault]
    exact ended

/-- A duplicate leaves its ring at rest. -/
theorem Sound.duplicated {s : Session α} (sound : s.Sound) {key : Key}
    {before after : List (Channel α)} {c : Channel α}
    (place : Located key s.channels before c after) (k : EntryKind α) :
    Consistent (setRing key (c.ring.duplicate k).ring s.channels) := by
  have old := sound.consistent.each c place.mem
  obtain ⟨capacity, entries, holds⟩ := old.rest
  rw [place.setRing]
  exact sound.consistent.replace place ⟨(holds.duplicate_conserves k).1.rest, old.sole, old.reached⟩
    (List.Sublist.refl _)

section Alike

variable {s : Session α} {name : String}

/-- Two calls that differ at most in what was done on the side, and in whether an entry broke off;
or the first left the ring as it was. -/
def Resembles (r : Ring α) (made other : Call α (Result α)) : Prop :=
  made.ring = other.ring ∧ (resultOfCall made ≠ .waiting → resultOfCall other ≠ .waiting) ∨
    made.ring = r

theorem Resembles.refl (r : Ring α) (made : Call α (Result α)) : Resembles r made made :=
  .inl ⟨rfl, id⟩

/-- A ring that could not be cleared is as it was. -/
theorem resembles_clear (setup : Setup α) (r : Ring α) {present : Unit → Result α}
    (ended : present () ≠ .waiting) :
    Resembles r ((r.clear setup.kind).map present)
      ((r.clear setup.droppable.kind).map present) := by
  have whole : setup.droppable.kind.dropAll r.unreadBatch = ⟨r.unreadBatch, none⟩ := rfl
  simp only [Ring.clear, whole]
  cases (setup.kind.dropAll r.unreadBatch).fault with
  | none => exact .inl ⟨rfl, fun _ => ended⟩
  | some fault => exact .inr rfl

/-- A push that drops what it leaves over has done with the ring. -/
theorem resembles_report (setup : Setup α) (turnedDown : Option α) (made : Call α (Pushed α))
    (r : Ring α) :
    Resembles r ((made.andThen (Ring.report setup.kind turnedDown)).map .pushed)
      ((made.andThen (Ring.report setup.droppable.kind turnedDown)).map .pushed) := by
  have droppable : setup.droppable.kind.dropFails = none := rfl
  obtain ⟨outcome, ring, effects⟩ := made
  cases outcome with
  | returned pushed =>
    refine .inl ?_
    cases pushed with
    | denied =>
      refine ⟨rfl, fun _ => ?_⟩
      simp only [Call.andThen, Ring.report_denied, Ring.returnAfterDrop_eq droppable]
      rintro ⟨⟩
    | stored evicted =>
      refine ⟨rfl, fun _ => ?_⟩
      simp only [Call.andThen, Ring.report_stored, Ring.returnAfterDrop_eq droppable]
      rintro ⟨⟩
  | aborted fault => exact .inl ⟨rfl, id⟩
  | waiting => exact .inl ⟨rfl, id⟩

/-- The calls of an action, with entries as they are and with entries that can be dropped. -/
theorem Action.call?_resembles (setup : Setup α) (c : Channel α) (role : Role) (action : Action α) :
    Option.Rel (Resembles c.ring) (action.call? setup c role)
      (action.call? setup.droppable c role) := by
  cases action with
  | push terms value =>
    cases terms with
    | asked policy => exact .some (.refl _ _)
    | configured =>
      exact .some (resembles_report setup (some value) (c.ring.push c.overflowPolicy value) c.ring)
  | clear => exact .some (resembles_clear setup c.ring (by rintro ⟨⟩))
  | front =>
    unfold Action.call?
    dsimp only
    split
    · exact .none
    · exact .some (.refl _ _)
  | exclusive operation =>
    unfold Action.call?
    dsimp only
    split
    · refine .some ?_
      cases operation with
      | clear =>
        rw [Exclusive.apply, Exclusive.apply, Call.map_map, Call.map_map]
        exact resembles_clear setup c.ring (by rintro ⟨⟩)
      | _ => exact .refl _ _
    · exact .none
  | pushWithin | popFront | popWithin | read | readWithin | drain | reserve =>
    exact .some (.refl _ _)
  | _ => exact .none

/-- Actions act alike on the channels, unless an entry breaks off while a ring is cleared; then the
channels stay as they were. -/
theorem Sound.performed_alike (sound : s.Sound) {action : Action α}
    {reply : Setup α → Reply α (Result α)} (performs : Performs s name action reply)
    (setup : Setup α) :
    (reply setup).Alike (reply setup.droppable) ∨
      (reply setup).session.channels = s.channels ∧ (reply setup).session.pushes = s.pushes := by
  have droppable : setup.droppable.kind.dropFails = none := rfl
  have others : Consistent (removeChannel (.name name) s.channels) :=
    sound.consistent.sublist List.filter_sublist
  cases performs with
  | refused | looked | handedOver => exact .inl (.refl _)
  | @called _ c h made found offered free call =>
    obtain ⟨before, after, at_⟩ := located_of_findChannel sound.consistent.distinct found
    have calls := action.call?_resembles setup c h.role
    rw [call, call] at calls
    dsimp only
    rw [call_eq, call_eq]
    cases calls with
    | some resembles =>
      rcases resembles with ⟨ring, finished⟩ | same
      · exact .inl ⟨congrArg (setRing (.name name) · s.channels) ring, rfl, finished⟩
      · exact .inr
          ⟨(congrArg (setRing (.name name) · s.channels) same).trans at_.setRing_self, rfl⟩
  | split found owner free producer consumer =>
    exact .inl (place_alike s _ _ _ _ _ _ (by rintro ⟨⟩) droppable others)
  | dropped found =>
    refine .inl ⟨dropHandle_channels _ _ _ _, rfl, fun _ => ?_⟩
    simp only [Session.drop, ((sound.consistent.but_name name).dropHandle droppable).fault]
    rintro ⟨⟩
  | clonedProducer found producer new =>
    refine .inl ⟨congrArg (· ++ _) (dropHandle_channels _ _ _ _), rfl, fun _ => ?_⟩
    simp only [Session.cloneProducer, ((others.but_name new).dropHandle droppable).fault]
    rintro ⟨⟩
  | @clonedQueue c h found owner new =>
    obtain ⟨before, after, at_⟩ := located_of_findChannel sound.consistent.distinct found
    have consistent := sound.duplicated at_ setup.kind
    have same : c.ring.duplicate setup.droppable.kind = c.ring.duplicate setup.kind := rfl
    simp only [Session.cloneQueue, same]
    cases (c.ring.duplicate setup.kind).outcome with
    | returned ring =>
      exact .inl (place_alike s _ _ _ _ _ _ (by rintro ⟨⟩) droppable consistent)
    | aborted fault => exact .inl (.refl _)
    | waiting => exact .inl (.refl _)

end Alike

/-! ## New queues -/

namespace Creation

def capacity : Creation α → Nat
  | .queue (.ofCapacity capacity) => capacity
  | .queue (.filled capacity _) => capacity
  | .policyQueue (.ofCapacity capacity _) => capacity
  | .policyQueue (.ofConfig config) => config.capacity

/-- The events of settings that were accepted, whether or not there is a block for so many slots. -/
def configuration : Creation α → List Event
  | .policyQueue (.ofConfig config) => [.queueConfigured config.capacity config.policy]
  | _ => []

/-- The events with which a new queue is announced. -/
def announcement : Creation α → List Event
  | .queue (.ofCapacity capacity) => [.ringCreated capacity]
  | .queue (.filled _ _) => []
  | .policyQueue (.ofCapacity capacity _) => [.ringCreated capacity]
  | .policyQueue (.ofConfig config) =>
    [.queueConfigured config.capacity config.policy, .ringCreated config.capacity]

theorem builds (setup : Setup α) (creation : Creation α) {built : Built α (Ring α × Option Policy)}
    (made : creation.build setup = .ok built) :
    Ring.Builds setup.kind creation.capacity creation.configuration creation.announcement
      Prod.fst built := by
  cases creation with
  | queue source =>
    cases source with
    | ofCapacity capacity =>
      cases made
      exact .map (Ring.create_builds setup.kind capacity)
    | filled capacity value =>
      cases made
      exact .map (Ring.filled_builds setup.kind capacity value)
  | policyQueue source =>
    cases source with
    | ofCapacity capacity policy =>
      cases made
      exact .map (.map (Ring.create_builds setup.kind capacity))
    | ofConfig config =>
      have configured := PolicyQueue.ofConfig_builds setup.kind config
      simp only [build] at made
      cases queue : PolicyQueue.ofConfig setup.kind config with
      | error e =>
        rw [queue] at made
        cases made
      | ok queueBuilt =>
        rw [queue] at configured made
        cases made
        exact .map configured.2

end Creation

/-! ## Soundness -/

/-- Any finished action of the caller alone leaves the session sound. -/
theorem Sound.acted {s : Session α} (sound : s.Sound) (setup : Setup α) (name : String)
    {action : Action α} (sequential : action.isSequential = true)
    (finished : (s.perform setup name action).result ≠ .waiting) :
    (s.perform setup name action).session.Sound ∧
      (s.perform setup name action).session.pushes = s.pushes := by
  rcases sound.performed_alike (performs s name action) setup with alike | ⟨channels, pushes⟩
  · have droppable : setup.droppable.kind.dropFails = none := rfl
    have balanced := sound.performed droppable (performs s name action) sequential
      (alike.finished finished)
    exact ⟨(balanced.sound sound).congr alike.channels alike.pushes, alike.pushes.trans
      balanced.pushes⟩
  · exact ⟨sound.congr channels pushes, pushes⟩

/-- Any new queue leaves the session sound, also one that could not be built. -/
theorem Sound.placedBuilt {s : Session α} (sound : s.Sound) (k : EntryKind α) (name : String)
    {built : Built α (Ring α × Option Policy)} {result : Result α} (ended : result ≠ .waiting)
    (rest : ∀ new, built.result = .ok new → ∃ c entries, new.1.Holds c entries 0) :
    (s.placeBuilt k name built result).session.Sound ∧
      (s.placeBuilt k name built result).session.pushes = s.pushes := by
  obtain ⟨made, log⟩ := built
  cases made with
  | error fault => exact ⟨sound.congr rfl rfl, rfl⟩
  | ok new =>
    obtain ⟨c, entries, holds⟩ := rest new rfl
    -- Entries that can be dropped, and an empty log, lead to the same channels.
    have droppable : (EntryKind.plain : EntryKind α).dropFails = none := rfl
    have alike := place_alike s k .plain s.channels ⟨new.1, new.2, [.named name .owner]⟩
      log [] ended
      droppable sound.consistent
    have balance : (Ledger.single new.1.unread [] ([] : List (Effect α))).Balances
      (unreadIn s.channels)
        (unreadIn s.channels + new.1.unread) := by
      simp [Ledger.Balances, Ledger.single]
    have placed := (place sound.consistent (fun _ => Iff.rfl) droppable
      (Channel.sound_owned holds new.2 name) (by simp [Handle.named])
        (by simp [Channel.keys]) balance
      result).1
    exact ⟨(placed.sound sound).congr alike.channels alike.pushes, alike.pushes⟩

theorem Sound.created {s : Session α} (sound : s.Sound) (setup : Setup α) (name : String)
    (creation : Creation α) :
    (s.create setup name creation).session.Sound ∧
      (s.create setup name creation).session.pushes = s.pushes := by
  rw [create_eq]
  cases made : creation.build setup with
  | error e => exact ⟨sound, rfl⟩
  | ok built =>
    refine sound.placedBuilt setup.kind name creation.success_ne_waiting ?_
    intro new returned
    have builds := creation.builds setup made
    cases builds with
    | rejected => cases returned
    | aborted => cases returned
    | built good holds =>
      cases returned
      exact ⟨_, _, holds⟩

/-- What the end of a push comes to on the ring of its handle. -/
def Pending.closing (push : Pending α) (k : EntryKind α) (made : Except Fault α)
    (r : Ring α) : Call α (Result α) :=
  match push.terms with
  | .asked _ => (r.settle push.evicted made).map (showEmplace push.policy)
  | .configured => ((r.settle push.evicted made).andThen (Ring.report k none)).map .pushed

/-- The end of a push is a call, after which the push no longer keeps its handle. -/
theorem Pending.leave_eq (push : Pending α) (made : Except Fault α) {setup : Setup α}
    {s : Session α} {c : Channel α} {h : Handle}
    (found : s.find? (.push push.number) = some (c, h)) :
    s.endEmplace setup push.number push.terms push.policy push.evicted made =
      let closed := push.closing setup.kind made c.ring
      let dropped := dropHandle setup.kind (.push push.number)
        (setRing (.push push.number) closed.ring s.channels)
      ⟨⟨dropped.channels, (s.blocks.afterAll closed.effects).afterAll dropped.effects, push.number⟩,
        resultOf dropped.fault (resultOfCall closed), closed.effects ++ dropped.effects⟩ := by
  have presented {β : Type} (call : Call α β) (present : β → Result α) :
      s.call (.push push.number) call present =
        ⟨s.after (setRing (.push push.number) call.ring s.channels) call.effects,
          resultOfCall (call.map present),
          call.effects⟩ :=
    (call_map s _ call present id).symm.trans (call_eq s _ (call.map present))
  cases terms : push.terms <;>
  · simp only [endEmplace, found, closing, terms, presented]
    rfl

/-- How entries are dropped does not count for the ring. -/
theorem Pending.closing_ring (push : Pending α) (k : EntryKind α) (made : Except Fault α)
    (r : Ring α) : (push.closing k made r).ring = (r.settle push.evicted made).ring := by
  unfold closing
  split
  · rfl
  · generalize r.settle push.evicted made = settled
    obtain ⟨outcome, ring, effects⟩ := settled
    rcases outcome with (_ | _) | _ | _ <;> rfl

/-- The end of a push leaves the session sound. -/
theorem Sound.ended {s : Session α} {number : Nat} (sound : s.Sound) (last : s.pushes = number + 1)
    (setup : Setup α) (terms : Terms) {policy : OverflowPolicy} {evicted : Option α}
    (kind : policy ≠ .overwrite → evicted = none) (made : Except Fault α) :
    (s.endEmplace setup number terms policy evicted made).session.Sound ∧
      (s.endEmplace setup number terms policy evicted made).session.pushes = number := by
  have droppable : setup.droppable.kind.dropFails = none := rfl
  have continues := sound.endEmplace last droppable terms kind made
  have channels : (s.endEmplace setup number terms policy evicted made).session.channels =
      (s.endEmplace setup.droppable number terms policy evicted made).session.channels := by
    obtain ⟨⟨c, h⟩, found⟩ := findChannel_isSome ((sound.under_way number).mpr (by omega))
    let push : Pending α := ⟨number, terms, policy, evicted⟩
    rw [push.leave_eq made found, push.leave_eq made found]
    dsimp only
    rw [push.closing_ring setup.kind, push.closing_ring setup.droppable.kind]
    exact dropHandle_channels _ _ _ _
  have pushes : (s.endEmplace setup number terms policy evicted made).session.pushes =
      (s.endEmplace setup.droppable number terms policy evicted made).session.pushes := by
    unfold Session.endEmplace
    split <;> rfl
  exact ⟨continues.sound.congr channels pushes, pushes.trans continues.pushes⟩

/-! ## Histories -/

/-- The pushes under way, the last one first, are numbered by those below them, and only a push that
overwrites has an entry in its hands. -/
inductive Stacked : List (Pending α) → Prop where
  | nil : Stacked []
  | cons {push : Pending α} {pending : List (Pending α)} (number : push.number = pending.length)
      (kind : push.policy ≠ .overwrite → push.evicted = none) (below : Stacked pending) :
      Stacked (push :: pending)

/-- What holds between two operations. -/
structure Between (s : Session α) (pending : List (Pending α)) : Prop where
  sound : s.Sound
  pushes : s.pushes = pending.length
  stacked : Stacked pending

theorem Between.empty : Between (Session.empty : Session α) [] := ⟨.empty, rfl, .nil⟩

/-- The last push that began is under way. -/
theorem Between.number_lt {s : Session α} {push : Pending α} {pending : List (Pending α)}
    (between : Between s (push :: pending)) : push.number < s.pushes := by
  obtain ⟨-, pushes, stacked⟩ := between
  cases stacked with
  | cons number kind below => rw [pushes, number, List.length_cons]; exact Nat.lt_succ_self _

theorem Between.next {s : Session α} {pending pending' : List (Pending α)}
    (between : Between s pending) {setup : Setup α} {operation : Operation α}
    (ends : operation.Ends pending (operation.run setup s).result pending') :
    Between (operation.run setup s).session pending' := by
  obtain ⟨sound, pushes, stacked⟩ := between
  cases operation with
  | create name creation =>
    cases ends
    obtain ⟨created, same⟩ := sound.created setup name creation
    exact ⟨created, same.trans pushes, stacked⟩
  | act name action =>
    generalize replied : (Operation.run setup s (.act name action)).result = result at ends
    cases ends with
    | acted sequential finished =>
      cases replied
      obtain ⟨performed, same⟩ := sound.acted setup name sequential finished
      exact ⟨performed, same.trans pushes, stacked⟩
  | enter name terms =>
    generalize replied : (Operation.run setup s (.enter name terms)).result = result at ends
    cases ends with
    | turnedDown finished =>
      have unchanged := (sound.begun_ended replied finished).1
      have same : (Operation.run setup s (.enter name terms)).session = s :=
        congrArg Reply.session unchanged
      rw [same]
      exact ⟨sound, pushes, stacked⟩
    | entered =>
      obtain ⟨rfl, kind, continues⟩ := sound.begun_granted setup.kind.cloning replied
      exact ⟨continues.sound, by rw [List.length_cons, ← pushes]; exact continues.pushes,
        .cons pushes kind stacked⟩
  | leave push made =>
    cases ends with
    | left =>
      cases stacked with
      | cons number kind below =>
        have last : s.pushes = push.number + 1 := by simpa [number] using pushes
        obtain ⟨ended, same⟩ := sound.ended last setup push.terms kind made
        exact ⟨ended, same.trans number, below⟩

/-- Whatever the operations, the session stays sound, and counts the pushes under way. -/
theorem History.between {setup : Setup α} {first s : Session α} {deeds : List (Deed α)}
    {pending : List (Pending α)} (history : History setup first deeds s pending)
    (start : Between first []) : Between s pending := by
  induction history with
  | start => exact start
  | next operation before ends ih => exact ih.next ends

/-! ## Steps are histories -/

mutual

/-- The caller acts alone, also inside constructors. -/
def Step.IsSequential : Step α → Prop
  | .create _ _ => True
  | .act _ action => action.isSequential = true
  | .emplace _ _ during _ => Step.AreSequential during

def Step.AreSequential : List (Step α) → Prop
  | [] => True
  | step :: rest => step.IsSequential ∧ Step.AreSequential rest

end

mutual

/-- All that a step did on the side, with the steps that its constructor ran. -/
def Answer.log : Answer α → List (Effect α)
  | .plain report => report.effects
  | .emplaced report none => report.effects
  | .emplaced report (some answers) => report.effects ++ Answer.logs answers

def Answer.logs : List (Answer α) → List (Effect α)
  | [] => []
  | answer :: rest => answer.log ++ Answer.logs rest

end

/-- The history goes on to a session with this log; what a push did at its end is logged there
together with what it did at its beginning. -/
def History.Extends (setup : Setup α) (first : Session α) (deeds : List (Deed α)) (s : Session α)
    (pending : List (Pending α)) (log : List (Effect α)) : Prop :=
  ∃ later, History setup first (deeds ++ later) s pending ∧ (logOf later).Perm log

theorem History.extends_one {setup : Setup α} {first s : Session α} {deeds : List (Deed α)}
    {pending pending' : List (Pending α)} (operation : Operation α)
    (history : History setup first deeds s pending)
    (ends : operation.Ends pending (operation.run setup s).result pending') :
    Extends setup first deeds (operation.run setup s).session pending'
      (operation.run setup s).effects :=
  ⟨_, .next operation history ends, by rw [logOf_singleton]⟩

mutual

theorem Step.run_history {setup : Setup α} {first : Session α} :
    (step : Step α) → (s : Session α) → (deeds : List (Deed α)) → (pending : List (Pending α)) →
      History setup first deeds s pending → step.IsSequential →
      (Step.run setup step s).2.isWaiting = false →
      History.Extends setup first deeds (Step.run setup step s).1 pending
        (Step.run setup step s).2.log
  | .create name creation, s, deeds, pending, history, _, _ =>
    history.extends_one (.create name creation) .created
  | .act name action, s, deeds, pending, history, sequential, finished => by
    refine history.extends_one (.act name action) (.acted sequential ?_)
    intro waiting
    simp [Step.run, Answer.isWaiting, Answer.report, waiting] at finished
  | .emplace name terms during made, s, deeds, pending, history, sequential, finished => by
    unfold Step.run at finished ⊢
    cases began : (s.beginEmplace name terms).result with
    | ended result =>
      simp only [began] at finished ⊢
      refine history.extends_one (.enter name terms)
        (?_ : Operation.Ends _ _ (s.beginEmplace name terms).result _)
      rw [began]
      refine .turnedDown ?_
      rintro rfl
      cases finished
    | granted number policy evicted =>
      simp only [began] at finished ⊢
      have granted : Operation.Ends (.enter name terms) pending
          (Operation.run setup s (.enter name terms)).result
          (⟨number, terms, policy, evicted⟩ :: pending) := by
        rw [show (Operation.run setup s (.enter name terms)).result = _ from began]
        exact .entered
      have entered := History.next (.enter name terms) history granted
      cases inside : (Step.runAll setup during (s.beginEmplace name terms).session).2.any
          Answer.isWaiting with
      | true =>
        rw [if_pos inside] at finished
        cases finished
      | false =>
        obtain ⟨later, ran, log⟩ := Step.runAll_history during _ _ _ entered sequential inside
        have left := History.next (.leave ⟨number, terms, policy, evicted⟩ made) ran .left
        rw [if_neg (by simp)]
        rw [List.append_assoc, List.append_assoc] at left
        refine ⟨_, left, ?_⟩
        rw [List.singleton_append, logOf_cons, logOf_append, logOf_singleton]
        -- The end of the push comes last, but is logged with the beginning.
        change List.Perm (_ ++ (_ ++ _)) (_ ++ _ ++ Answer.logs _)
        rw [List.append_assoc]
        exact ((log.append_right _).trans List.perm_append_comm).append_left _

theorem Step.runAll_history {setup : Setup α} {first : Session α} :
    (steps : List (Step α)) → (s : Session α) → (deeds : List (Deed α)) →
    (pending : List (Pending α)) →
      History setup first deeds s pending → Step.AreSequential steps →
      (Step.runAll setup steps s).2.any Answer.isWaiting = false →
      History.Extends setup first deeds (Step.runAll setup steps s).1 pending
        (Answer.logs (Step.runAll setup steps s).2)
  | [], s, deeds, pending, history, _, _ => ⟨[], by rwa [List.append_nil], .refl _⟩
  | step :: rest, s, deeds, pending, history, sequential, finished => by
    unfold Step.runAll at finished ⊢
    dsimp only at finished ⊢
    cases ended : (Step.run setup step s).2.isWaiting with
    | true => simp [ended] at finished
    | false =>
      obtain ⟨one, ran, log⟩ := Step.run_history step s deeds pending history sequential.1 ended
      simp only [ended, Bool.false_eq_true, if_false, List.any_cons, Bool.false_or] at finished ⊢
      obtain ⟨others, all, logs⟩ := Step.runAll_history rest _ _ pending ran sequential.2 finished
      refine ⟨one ++ others, by rwa [← List.append_assoc], ?_⟩
      rw [logOf_append]
      exact log.append logs

end

/-- Actions one after the other. -/
theorem History.acts {setup : Setup α} {first s : Session α} {deeds : List (Deed α)}
    {pending : List (Pending α)} (history : History setup first deeds s pending)
    (actions : List (String × Action α)) (sequential : ∀ a ∈ actions, a.2.isSequential = true)
    (finished : (Step.runAll setup (actions.map fun a => .act a.1 a.2) s).2.any Answer.isWaiting =
      false) :
    ∃ later, History setup first (deeds ++ later)
      (Step.runAll setup (actions.map fun a => .act a.1 a.2) s).1 pending ∧
      later.map Deed.operation = actions.map fun a => .act a.1 a.2 := by
  induction actions generalizing s deeds with
  | nil => exact ⟨[], by rwa [List.append_nil], rfl⟩
  | cons a actions ih =>
    obtain ⟨alone, others⟩ := List.forall_mem_cons.mp sequential
    rw [List.map_cons] at finished ⊢
    unfold Step.runAll at finished ⊢
    dsimp only at finished ⊢
    cases ended : (Step.run setup (.act a.1 a.2) s).2.isWaiting with
    | true => simp [ended] at finished
    | false =>
      simp only [ended, Bool.false_eq_true, if_false, List.any_cons, Bool.false_or] at finished ⊢
      have goes : (s.perform setup a.1 a.2).result ≠ .waiting := by
        intro waits
        simp [Step.run, Answer.isWaiting, Answer.report, waits] at ended
      have acted := History.next (.act a.1 a.2) history (.acted alone goes)
      obtain ⟨later, rest, operations⟩ := ih acted others finished
      rw [← List.append_cons] at rest
      exact ⟨_, rest, by rw [List.map_cons, List.map_cons, operations]⟩

end RingQueue.Session
