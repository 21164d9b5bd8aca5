import RingQueue.Proofs.Session.SoleQueue

/-!
What one operation does to a session with one policy queue.

`Turn` lists the ways in which an action can go, and `Opening` those in which a push with a
constructor can begin. All facts about whole runs come from these lists.
-/
namespace RingQueue.Session

variable {α β : Type}

/-- Whether an action only changes who reaches the queue. -/
def Action.isHandOut : Action α → Bool
  | .split _ _ => true
  | .clone _ => true
  | _ => false

@[simp] theorem removeChannel_sole {key : Key} {c : Channel α} (reached : key ∈ c.keys) :
    removeChannel key [c] = [] := by
  simp [removeChannel, (c.isReached_iff key).mpr reached]

@[simp] theorem dropHandles_nil (k : EntryKind α) (names : List String) :
    dropHandles k names [] = ⟨[], [], none⟩ := by
  induction names with
  | nil => rfl
  | cons name names ih => simp [dropHandles, dropHandle, ih]

namespace SoleQueue

variable {kind : OverflowPolicy} {c : Nat} {q : SoleQueue α} {name : String} {value : α}

/-- The name is that of a handle that pushes. -/
def MayPush (q : SoleQueue α) (name : String) : Prop :=
  ∃ h, q.handle? name = some h ∧ h.role ≠ .consumer

/-- The name is that of a handle that reads. -/
def MayRead (q : SoleQueue α) (name : String) : Prop :=
  ∃ h, q.handle? name = some h ∧ h.role ≠ .producer

theorem consumer_of_not_mayPush {h : Handle} (none : ¬ q.MayPush name)
    (found : q.handle? name = some h) :
    h.role = .consumer :=
  by_contra fun other => none ⟨h, found, other⟩

theorem producer_of_not_mayRead {h : Handle} (none : ¬ q.MayRead name)
    (found : q.handle? name = some h) :
    h.role = .producer :=
  by_contra fun other => none ⟨h, found, other⟩

/-- A name that no handle has leads nowhere. -/
theorem find?_of_missing (missing : q.handle? name = none) (policy : Policy) (blocks : Blocks) :
    (q.session policy blocks).find? (.name name) = none := by
  rw [find?_session]
  exact congrArg _ missing

/-! ## Actions -/

/-- How an action on a queue with room for `c` entries can go: where it leads, its result, and what
it does on the side. -/
inductive Turn (kind : OverflowPolicy) (c : Nat) (q : SoleQueue α) (name : String) :
    Action α → SoleQueue α → Result α → List (Effect α) → Prop where
  | noWriter {value : α} (none : ¬ q.MayPush name) :
      Turn kind c q name (.push .configured value) q .unavailable []
  | stored {value : α} {ring : Ring α} (writer : q.MayPush name) (room : q.len < c)
      (holds : ring.Holds c (q.ring.unread ++ [value]) q.pushes) :
      Turn kind c q name (.push .configured value) { q with ring } (.pushed (.ok ())) []
  | denied {value : α} (writer : q.MayPush name) (rejects : kind = .reject) (full : q.len = c) :
      Turn kind c q name (.push .configured value) q (.pushed (.error .queueIsFull))
        [.dropped (.single value)]
  | replaced {value oldest : α} {rest : List α} {ring : Ring α} (writer : q.MayPush name)
      (overwrites : kind = .overwrite) (contents : q.ring.unread = oldest :: rest)
      (full : q.len = c) (holds : ring.Holds c (rest ++ [value]) q.pushes) :
      Turn kind c q name (.push .configured value) { q with ring } (.pushed (.ok ()))
        [.reported (.evicted c), .dropped (.single oldest)]
  | waiting {value : α} (writer : q.MayPush name)
      (waits : kind = .block ∨ kind = .overwrite ∧ q.ring.unread = []) (full : q.len = c) :
      Turn kind c q name (.push .configured value) q .waiting (kind.waitingLog c)
  | noReader (none : ¬ q.MayRead name) : Turn kind c q name .read q .unavailable []
  | read {oldest : α} {rest : List α} {ring : Ring α} (reader : q.MayRead name)
      (contents : q.ring.unread = oldest :: rest) (holds : ring.Holds c rest q.pushes) :
      Turn kind c q name .read { q with ring } (.read (.ok oldest)) []
  | nothing (reader : q.MayRead name) (contents : q.ring.unread = []) :
      Turn kind c q name .read q (.read (.error .queueIsEmpty)) []
  | handedOut {action : Action α} {handles : List Handle} {result : Result α}
      (handsOut : action.isHandOut = true) (named : ∃ name, .name name ∈ handleKeys handles) :
      Turn kind c q name action { q with handles } result []

/-- Under all policies of the kind the action leads to `q'`. -/
def Performs (kind : OverflowPolicy) (q : SoleQueue α) (name : String) (action : Action α)
    (q' : SoleQueue α) (result : Result α) (effects : List (Effect α)) : Prop :=
  ∀ (setup : Setup α) (policy : Policy) (blocks : Blocks), setup.kind.dropFails = none →
    policy.kind = kind →
    (q.session policy blocks).perform setup name action =
      ⟨q'.session policy blocks, result, effects⟩

/-- Where there is no handle, and through handles that do not offer it, an action is not available.
-/
theorem performs_unavailable {action : Action α} (acts : action ≠ .observe)
    (refused : ∀ h, q.handle? name = some h →
      action.isOffered h.role true = false ∨ (action.needsAll && !h.keptBy.isEmpty) = true) :
    Performs kind q name action q .unavailable [] := by
  intro setup policy blocks _ _
  cases found : q.handle? name with
  | none =>
    rw [perform.eq_def, find?_of_missing found]
    cases action <;> first | rfl | exact absurd rfl acts
  | some h =>
    simp only [perform, find?_of_handle? found]
    by_cases closed : (!action.isOffered h.role (q.channel policy).policy.isSome) = true
    · exact if_pos closed
    · rw [if_neg closed]
      refine if_pos ((refused h found).resolve_left fun other => closed ?_)
      simpa [channel] using other

theorem perform_offered {h : Handle} (found : q.handle? name = some h) {action : Action α}
    (offered : action.isOffered h.role true = true)
    (free : (action.needsAll && !h.keptBy.isEmpty) = false) (setup : Setup α) (policy : Policy)
    (blocks : Blocks) :
    (q.session policy blocks).perform setup name action =
      useHandle setup (q.session policy blocks) name (q.channel policy) h.role action := by
  have offered : action.isOffered h.role (q.channel policy).policy.isSome = true := offered
  simp only [perform, find?_of_handle? found, offered, free]
  rfl

/-- A call through a handle that offers it. -/
theorem performs_call (kind : OverflowPolicy) {h : Handle} (found : q.handle? name = some h)
    (action : Action α) (offered : action.isOffered h.role true = true)
    (free : (action.needsAll && !h.keptBy.isEmpty) = false) (made : Call α β)
    (present : β → Result α) (uses : ∀ (setup : Setup α) (s : Session α) (policy : Policy),
      setup.kind.dropFails = none →
      policy.kind = kind → useHandle setup s name (q.channel policy) h.role action =
        s.call (.name name) made present)
    (blockless : ∀ blocks : Blocks, blocks.afterAll made.effects = blocks) :
    Performs kind q name action { q with ring := made.ring }
      (.ofOutcome present made.outcome) made.effects := by
  intro setup policy blocks drops same
  rw [perform_offered found offered free, uses _ _ _ drops same,
    call_session (mem_keys found) present (blockless blocks)]

/-- A push goes in one of the ways listed. -/
theorem Rests.push (rests : q.Rests c) (kind : OverflowPolicy) (name : String) (value : α) :
    ∃ q' result effects, Performs kind q name (.push .configured value) q' result effects ∧
      Turn kind c q name (.push .configured value) q' result effects := by
  by_cases writer : q.MayPush name
  · obtain ⟨h, found, writes⟩ := writer
    have performs := performs_call kind found (.push .configured value)
      (by simp [Action.isOffered, writes]) rfl (q.ring.pushUnder .plain kind value) .pushed
      (by rintro setup s policy drops rfl; rw [← Ring.pushUnder_eq_plain drops]; rfl)
    have pushing := rests.holds.pushing kind value
    rw [Ring.pushUnder] at performs
    generalize q.ring.push kind value = made at performs pushing
    cases pushing with
    | stored room holds =>
      exact ⟨_, _, _, performs fun _ => rfl, .stored ⟨h, found, writes⟩ room holds⟩
    | denied rejects full =>
      exact ⟨_, _, _, performs fun _ => rfl, .denied ⟨h, found, writes⟩ rejects full⟩
    | replaced overwrites contents full holds =>
      exact ⟨_, _, _, performs fun _ => rfl, .replaced ⟨h, found, writes⟩ overwrites
        contents full holds⟩
    | waiting waits full =>
      refine ⟨_, _, _, performs fun _ => ?_, .waiting ⟨h, found, writes⟩ waits full⟩
      cases kind <;> rfl
  · refine ⟨q, _, _, performs_unavailable (by simp) fun h found => .inl ?_, .noWriter writer⟩
    simp [Action.isOffered, consumer_of_not_mayPush writer found]

/-- A read goes in one of the ways listed. -/
theorem Rests.read (rests : q.Rests c) (kind : OverflowPolicy) (name : String) :
    ∃ q' result effects, Performs kind q name .read q' result effects ∧
      Turn kind c q name .read q' result effects := by
  by_cases reader : q.MayRead name
  · obtain ⟨h, found, reads⟩ := reader
    have performs := performs_call kind found .read (by simp [Action.isOffered, reads]) rfl
      q.ring.read? .read fun _ _ _ _ _ => rfl
    have holds := rests.holds
    cases contents : q.ring.unread with
    | nil =>
      rw [contents] at holds
      rw [Ring.read?, holds.popFront_nil] at performs
      exact ⟨_, _, _, performs fun _ => rfl, .nothing ⟨h, found, reads⟩ contents⟩
    | cons oldest rest =>
      rw [contents] at holds
      obtain ⟨ring, popped, left⟩ := holds.popFront_cons
      rw [Ring.read?, popped] at performs
      exact ⟨_, _, _, performs fun _ => rfl, .read ⟨h, found, reads⟩ contents left⟩
  · refine ⟨q, _, _, performs_unavailable (by simp) fun h found => .inl ?_, .noReader reader⟩
    simp [Action.isOffered, producer_of_not_mayRead reader found]

theorem named_append {handles : List Handle} {new : String} {role : Role} :
    ∃ name, Key.name name ∈ handleKeys (handles ++ [.named new role]) :=
  ⟨new, by simp⟩

/-- Splitting a queue, which only its owner can, leaves a writer and a reader. -/
theorem performs_split {h : Handle} (found : q.handle? name = some h) (owner : h.role = .owner)
    (free : h.keptBy = []) (producer consumer : String) :
    Performs kind q name (.split producer consumer)
      { q with
        handles :=
          if producer = consumer then [.named consumer .consumer]
          else [.named producer .producer, .named consumer .consumer] } .done [] := by
  intro setup policy blocks _ _
  have gone : removeChannel (.name name) (q.session policy blocks).channels = [] :=
    removeChannel_sole (c := q.channel policy) (mem_keys found)
  rw [perform_offered found (by simp [Action.isOffered, owner]) (by simp [free])]
  simp only [useHandle, split, place, gone, dropHandles_nil]
  rfl

/-- A further writer takes its name from the handle that had it. -/
theorem performs_clone {h : Handle} (found : q.handle? name = some h) (writer : h.role = .producer)
    (new : String) :
    Performs kind q name (.clone new)
      { q with handles := (q.channel (.fixed kind)).without (.name new) ++ [.named new .producer] }
      .done [] := by
  intro setup policy blocks _ _
  have gone : removeChannel (.name name) (q.session policy blocks).channels = [] :=
    removeChannel_sole (c := q.channel policy) (mem_keys found)
  rw [perform_offered found (by simp [Action.isOffered, writer]) rfl]
  simp only [useHandle, writer, if_true, cloneProducer, gone]
  rfl

/-- Handing out the queue changes the handles, or nothing. -/
theorem Rests.handOut (rests : q.Rests c) (kind : OverflowPolicy) (name : String)
    {action : Action α} (handsOut : action.isHandOut = true) :
    ∃ q' result effects, Performs kind q name action q' result effects ∧
      Turn kind c q name action q' result effects := by
  by_cases offered : ∃ h, q.handle? name = some h ∧ action.isOffered h.role true = true ∧
      (action.needsAll && !h.keptBy.isEmpty) = false
  · obtain ⟨h, found, offered, free⟩ := offered
    cases action with
    | split producer consumer =>
      have owner : h.role = .owner := by simpa [Action.isOffered] using offered
      have unkept : h.keptBy = [] := by simpa [Action.needsAll] using free
      refine ⟨_, _, _, performs_split found owner unkept producer consumer, .handedOut rfl ?_⟩
      refine ⟨consumer, ?_⟩
      split <;> simp
    | clone new =>
      have writer : h.role = .producer := by simpa [Action.isOffered] using offered
      exact ⟨_, _, _, performs_clone found writer new, .handedOut rfl named_append⟩
    | _ => cases handsOut
  · refine ⟨q, _, _, performs_unavailable (by rintro rfl; cases handsOut) fun h found => ?_,
      .handedOut handsOut rests.named⟩
    by_contra closed
    rw [not_or, Bool.not_eq_false, Bool.not_eq_true] at closed
    exact offered ⟨h, found, closed⟩

/-! ## Pushes with a constructor -/

/-- The queue while one push more keeps the handle of a name. -/
def entered (q : SoleQueue α) (name : String) (ring : Ring α) : SoleQueue α where
  ring := ring
  handles := q.handles.map fun h => if h.answersTo (.name name) then h.kept q.pushes else h
  pushes := q.pushes + 1

/-- The queue after the end of the push of a number. -/
def exited (q : SoleQueue α) (ring : Ring α) (number : Nat) : SoleQueue α where
  ring := ring
  handles := q.handles.filterMap (·.without (.push number))
  pushes := number

/-- How a push with a constructor can begin. -/
inductive Opening (kind : OverflowPolicy) (c : Nat) (q : SoleQueue α) (name : String) :
    SoleQueue α → Begun α → List (Effect α) → Prop where
  | noWriter (none : ¬ q.MayPush name) : Opening kind c q name q (.ended .unavailable) []
  | denied (writer : q.MayPush name) (rejects : kind = .reject) (full : q.len = c) :
      Opening kind c q name q (.ended (.pushed (.error .queueIsFull))) []
  | waiting (writer : q.MayPush name)
      (waits : kind = .block ∨ kind = .overwrite ∧ q.ring.unread = []) (full : q.len = c) :
      Opening kind c q name q (.ended .waiting) (kind.waitingLog c)
  | room {ring : Ring α} (writer : q.MayPush name) (room : q.len < c)
      (holds : ring.Holds c q.ring.unread (q.pushes + 1)) :
      Opening kind c q name (q.entered name ring) (.granted q.pushes kind none) []
  | evicting {oldest : α} {rest : List α} {ring : Ring α} (writer : q.MayPush name)
      (overwrites : kind = .overwrite) (contents : q.ring.unread = oldest :: rest)
      (full : q.len = c) (holds : ring.Holds c rest (q.pushes + 1)) :
      Opening kind c q name (q.entered name ring) (.granted q.pushes kind (some oldest))
        [.reported (.evicted c)]

/-- Under all policies of the kind the push begins so. -/
def Begins (kind : OverflowPolicy) (q : SoleQueue α) (name : String) (q' : SoleQueue α)
    (begun : Begun α) (effects : List (Effect α)) : Prop :=
  ∀ (policy : Policy) (blocks : Blocks), policy.kind = kind →
    (q.session policy blocks).beginEmplace name .configured =
      ⟨q'.session policy blocks, begun, effects⟩

theorem begins_unavailable (none : ¬ q.MayPush name) :
    Begins kind q name q (.ended .unavailable) [] := by
  intro policy blocks _
  cases found : q.handle? name with
  | none =>
    simp only [beginEmplace, find?_of_missing found]
    rfl
  | some h =>
    exact beginEmplace_refused (find?_of_handle? found) (.inl (consumer_of_not_mayPush none found))

/-- A push with a constructor begins in one of the ways listed. -/
theorem Rests.begin (rests : q.Rests c) (kind : OverflowPolicy) (name : String) :
    ∃ q' begun effects, Begins kind q name q' begun effects ∧ Opening kind c q name q'
      begun effects := by
  by_cases writer : q.MayPush name
  · obtain ⟨h, found, writes⟩ := writer
    have accepts (policy : Policy) : ¬ h.refuses (q.channel policy) .configured := by
      rintro (consumer | other)
      · exact writes consumer
      · exact other (by simp [channel])
    have place (policy : Policy) (blocks : Blocks) := located policy blocks (mem_keys found)
    have same (policy : Policy) (blocks : Blocks) :
        setRing (.name name) q.ring (q.session policy blocks).channels =
          (q.session policy blocks).channels := (place policy blocks).setRing_self
    have requested := rests.holds.requested kind
    generalize made : q.ring.request kind = call at requested
    cases requested with
    | room room holds =>
      refine ⟨_, _, _, ?_, .room ⟨h, found, writes⟩ room holds⟩
      rintro policy blocks rfl
      rw [beginEmplace_granted (find?_of_handle? found) (accepts policy) made,
        (place policy blocks).entered]
      rfl
    | evicting overwrites contents full holds =>
      refine ⟨_, _, _, ?_, .evicting ⟨h, found, writes⟩ overwrites contents full holds⟩
      rintro policy blocks rfl
      rw [beginEmplace_granted (find?_of_handle? found) (accepts policy) made,
        (place policy blocks).entered]
      rfl
    | denied rejects full =>
      refine ⟨_, _, _, ?_, .denied ⟨h, found, writes⟩ rejects full⟩
      rintro policy blocks rfl
      rw [beginEmplace_denied (find?_of_handle? found) (accepts policy) made, same]
      rfl
    | waiting waits full =>
      refine ⟨_, _, _, ?_, .waiting ⟨h, found, writes⟩ waits full⟩
      rintro policy blocks rfl
      rw [beginEmplace_waiting (find?_of_handle? found) (accepts policy) made, same,
        after_waitingLog]
  · exact ⟨q, _, _, begins_unavailable writer, .noWriter writer⟩

/-- A queue is at rest also for the constructor of a push. -/
theorem Rests.entered (rests : q.Rests c) {ring : Ring α} {evicted : Option α}
    {effects : List (Effect α)}
    (begins : Begins kind q name (q.entered name ring) (.granted q.pushes kind evicted) effects)
    (found : .name name ∈ handleKeys q.handles) {entries : List α}
    (holds : ring.Holds c entries (q.pushes + 1)) : (q.entered name ring).Rests c where
  holds := by
    rw [← holds.unread] at holds
    exact holds
  sound := by
    intro policy blocks
    have began := begins (.fixed kind) ⟨0, 0⟩ rfl
    have granted := congrArg Reply.result began
    obtain ⟨-, -, continues⟩ := (rests.sound (.fixed kind) ⟨0, 0⟩).begun_granted .verbatim granted
    rw [began] at continues
    exact sound_session continues.sound policy blocks
  named := by
    have kept := handleKeys_kept q.handles rests.distinct found q.pushes
    exact ⟨name, kept.mem_iff.mpr (List.mem_cons_of_mem _ found)⟩

/-- The end of a push leaves all names where they are. -/
theorem Rests.named_exited (rests : q.Rests c) (ring : Ring α) (number : Nat) :
    ∃ name, .name name ∈ handleKeys (q.exited ring number).handles := by
  obtain ⟨name, member⟩ := rests.named
  refine ⟨name, ?_⟩
  change _ ∈ handleKeys (q.handles.filterMap (·.without (.push number)))
  rw [handleKeys_without q.handles rests.distinct]
  exact List.mem_filter.mpr ⟨member, by simp⟩

/-- The handle that a push kept is given up if nothing else leads to it. The queue stays, because
some handle has a name. -/
theorem Rests.dropHandle (rests : q.Rests c) (k : EntryKind α) (ring : Ring α) {number : Nat}
    (kept : .push number ∈ handleKeys q.handles) (policy : Policy) (blocks : Blocks) :
    Session.dropHandle k (.push number) (SoleQueue.session { q with ring } policy blocks).channels =
      ⟨[(q.exited ring number).channel policy], [], none⟩ := by
  rw [(located (q := { q with ring }) policy blocks kept).dropHandle]
  refine if_neg fun gone => ?_
  obtain ⟨name, member⟩ := rests.named_exited ring number
  have gone : (q.exited ring number).handles = [] := List.isEmpty_iff.mp gone
  rw [gone] at member
  cases member

/-- What a push answers once its constructor is done. -/
def answerTo : Except Fault α → Result α
  | .ok _ => .pushed (.ok ())
  | .error fault => .aborted fault

/-- Room that was granted is used for the entry that the constructor made, or given back. -/
theorem settle_report {r : Ring α} {entries : List α} {reserved : Nat}
    (holds : r.Holds c entries (reserved + 1)) (evicted : Option α) (made : Except Fault α) :
    ∃ (ring : Ring α) (outcome : Outcome (Except QueueError Unit)),
      (r.settle evicted made).andThen (Ring.report .plain none) =
        ⟨outcome, ring, Effect.drop? evicted⟩ ∧
      ring.Holds c (entries ++ made.toOption.toList) reserved ∧
      Result.ofOutcome .pushed outcome = answerTo made := by
  cases made with
  | ok a =>
    obtain ⟨ring, settle, stored⟩ := holds.settle_made evicted a
    have plain : (EntryKind.plain : EntryKind α).dropFails = none := rfl
    refine ⟨ring, .returned (.ok ()), ?_, stored, rfl⟩
    rw [settle, Call.andThen_returned, Ring.report_stored, Ring.returnAfterDrop_eq plain]
    rfl
  | error fault =>
    have returned := holds.returnAdmission
    rw [← List.append_nil entries] at returned
    exact ⟨_, .aborted fault, rfl, returned, rfl⟩

/-- The last push under way publishes what its constructor made, or gives the room back. -/
theorem Rests.endEmplace (rests : q.Rests c) {number : Nat} (last : q.pushes = number + 1)
    (evicted : Option α) (made : Except Fault α) :
    ∃ ring : Ring α, ring.Holds c (q.ring.unread ++ made.toOption.toList) number ∧
      ∀ (setup : Setup α) (overflow : OverflowPolicy) (policy : Policy) (blocks : Blocks),
        setup.kind.dropFails = none → (q.session policy blocks).endEmplace setup number .configured
          overflow evicted made =
          ⟨(q.exited ring number).session policy blocks, answerTo made, Effect.drop? evicted⟩ := by
  have holds := rests.holds
  rw [last] at holds
  obtain ⟨ring, outcome, settled, left, shown⟩ := settle_report holds evicted made
  refine ⟨ring, left, fun setup overflow policy blocks drops => ?_⟩
  have kept : .push number ∈ handleKeys q.handles := (rests.under_way number).mpr (by omega)
  obtain ⟨h, here⟩ := find?_of_mem policy blocks kept
  have called : (q.session policy blocks).call (.push number)
      (((q.channel policy).ring.settle evicted made).andThen (Ring.report setup.kind none))
        .pushed =
        ⟨SoleQueue.session { q with ring } policy blocks, answerTo made, Effect.drop? evicted⟩ := by
    rw [Ring.report_eq_plain drops,
      call_session kept _ (by rw [channel, settled]; cases evicted <;> rfl), channel,
        settled, ← shown]
  simp only [Session.endEmplace, here, called, rests.dropHandle, kept, List.append_nil]
  rfl

end SoleQueue

end RingQueue.Session
