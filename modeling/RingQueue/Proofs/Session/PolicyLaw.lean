import RingQueue.Proofs.Session.PolicyStream
import RingQueue.Proofs.Session.Spared

/-!
The law of policy queues.

A queue is made, and then pushes, reads, splits and further writers use it in any order, also from
inside constructors. `Selects` says how a policy can be asked for: by the type of the queue, by a
value, or by settings. `StreamLaw` says what then is in the queue, what has left it, and what the
next push or read will answer. `policy_stream_law` is the law of the policy that was asked for, for
all runs in which no entry breaks off while it is dropped, and answers are the same however it was
asked for.
-/
namespace RingQueue.Session

variable {α : Type}

/-! ## New queues -/

/-- How a queue with this policy and room for `c` entries can be asked for. -/
inductive Selects (p : OverflowPolicy) (c : Nat) : Setup α → PolicyQueueSource → Prop where
  -- The type of the queue has the policy, and no value counts.
  | byType {setup : Setup α} (fixed : setup.fixedPolicy = some p) (asked : OverflowPolicy) :
      Selects p c setup (.ofCapacity c asked)
  | byValue {setup : Setup α} (free : setup.fixedPolicy = none) :
      Selects p c setup (.ofCapacity c p)
  -- Settings always choose by value.
  | bySettings {setup : Setup α} : Selects p c setup (.ofConfig ⟨c, p⟩)

/-- A session in which one policy queue has been made. -/
def withPolicyQueue (setup : Setup α) (name : String) (source : PolicyQueueSource) : Session α :=
  (Session.empty.create setup name (.policyQueue source)).session

namespace SoleQueue

/-- A queue that nobody has used. -/
def fresh (name : String) (c : Nat) : SoleQueue α := ⟨.empty c, [.named name .owner], 0⟩

theorem fresh_rests (name : String) (c : Nat) : (fresh name c : SoleQueue α).Rests c where
  holds := holds_unread (Ring.holds_empty c)
  sound := by
    intro policy blocks
    refine ⟨⟨?_, ?_⟩, ?_⟩
    · intro other member
      rw [List.mem_singleton.mp member]
      exact Channel.sound_owned (Ring.holds_empty c) (some policy) name
    · simp [fresh, session, channel, Channel.keys]
    · simp [fresh, session, channel, Channel.keys]
  named := ⟨name, by simp [fresh]⟩

theorem unread_fresh (name : String) (c : Nat) : (fresh name c : SoleQueue α).ring.unread = [] :=
  (Ring.holds_empty c).unread

/-- The first queue of a session. -/
theorem placeBuilt_fresh {k : EntryKind α} {policy : Policy}
    {built : Built α (Ring α × Option Policy)} {c : Nat}
    (made : built.result = .ok (.empty c, some policy)) (name : String) (result : Result α) :
    ∃ blocks, (Session.empty.placeBuilt k name built result).session =
      (fresh name c).session policy blocks := by
  refine ⟨Blocks.afterAll ⟨0, 0⟩ (built.effects ++ []), ?_⟩
  simp only [placeBuilt, made, place, Session.empty, dropHandles_nil]
  rfl

section Made

variable {setup : Setup α} {p : OverflowPolicy} {c : Nat} (name : String)

/-- A queue of a type that has a policy has it, whatever value was given. -/
theorem withPolicyQueue_byType (accepted : setup.kind.checkSlots c = .ok ())
    (fixed : setup.fixedPolicy = some p) (asked : OverflowPolicy) :
    ∃ blocks, withPolicyQueue setup name (.ofCapacity c asked) =
      (fresh name c).session (.fixed p) blocks := by
  refine placeBuilt_fresh ?_ name _
  simp only [Built.map, PolicyQueue.create, Ring.create_eq accepted, Setup.policy, fixed]
  rfl

/-- A queue of a type without a policy has the one that was given. -/
theorem withPolicyQueue_byValue (accepted : setup.kind.checkSlots c = .ok ())
    (free : setup.fixedPolicy = none) :
    ∃ blocks, withPolicyQueue setup name (.ofCapacity c p) =
      (fresh name c).session (.chosen p) blocks := by
  refine placeBuilt_fresh ?_ name _
  simp only [Built.map, PolicyQueue.create, Ring.create_eq accepted, Setup.policy, free]
  rfl

/-- A queue from settings has their policy. -/
theorem withPolicyQueue_bySettings (accepted : setup.kind.checkSlots c = .ok ()) :
    ∃ blocks, withPolicyQueue setup name (.ofConfig ⟨c, p⟩) =
      (fresh name c).session (.chosen p) blocks := by
  obtain ⟨positive, bounded, -⟩ := (setup.kind.checkSlots_eq_ok_iff c).mp accepted
  have valid := (Config.validate_eq_ok_iff ⟨c, p⟩).mpr ⟨positive, bounded⟩
  simp only [withPolicyQueue, create, PolicyQueue.ofConfig, valid]
  refine placeBuilt_fresh ?_ name _
  simp only [Built.map, PolicyQueue.create, Ring.create_eq accepted]
  rfl

/-- However it is asked for, a queue is made whose pushes go by the policy that was asked for. -/
theorem withPolicyQueue_selected {source : PolicyQueueSource} (selects : Selects p c setup source)
    (accepted : setup.kind.checkSlots c = .ok ()) :
    ∃ policy blocks, policy.kind = p ∧
      withPolicyQueue setup name source = (fresh name c).session policy blocks := by
  cases selects with
  | byType fixed asked =>
    obtain ⟨blocks, made⟩ := withPolicyQueue_byType name accepted fixed asked
    exact ⟨.fixed p, blocks, rfl, made⟩
  | byValue free =>
    obtain ⟨blocks, made⟩ := withPolicyQueue_byValue name accepted free
    exact ⟨.chosen p, blocks, rfl, made⟩
  | bySettings =>
    obtain ⟨blocks, made⟩ := withPolicyQueue_bySettings name accepted
    exact ⟨.chosen p, blocks, rfl, made⟩

end Made

end SoleQueue

/-! ## Main result -/

/-- The unread entries of all queues of a session. -/
def contents (s : Session α) : List α := s.channels.flatMap (·.ring.unread)

/-- The name is that of a handle that pushes. -/
def MayPush (s : Session α) (name : String) : Prop :=
  ∃ c h, s.find? (.name name) = some (c, h) ∧ h.role ≠ .consumer

/-- The name is that of a handle that reads. -/
def MayRead (s : Session α) (name : String) : Prop :=
  ∃ c h, s.find? (.name name) = some (c, h) ∧ h.role ≠ .producer

/-- What a step would answer. -/
def Step.result (setup : Setup α) (step : Step α) (s : Session α) : Result α :=
  (Step.run setup step s).2.report.result

/-- What pushes, reads, splits and further writers lead to, with their traffic; also inside the
constructors of pushes. No entry breaks off while it is dropped. -/
inductive Flows (setup : Setup α) (first : Session α) : Session α → Traffic α → Prop where
  | start : Flows setup first first .none
  | run {s : Session α} {t : Traffic α} {steps : List (Step α)} :
      Flows setup first s t → Step.UsePolicy steps →
      (Step.runAll setup steps s).2.any Answer.isWaiting = false → Step.AreSpared setup steps s →
      Flows setup first (Step.runAll setup steps s).1
        (t ++ Step.traffics steps (Step.runAll setup steps s).2)
  | enter {s : Session α} {t : Traffic α} (name : String) {number : Nat} {policy : OverflowPolicy}
      {evicted : Option α} :
      Flows setup first s t →
      (s.beginEmplace name .configured).result = .granted number policy evicted →
      Flows setup first (s.beginEmplace name .configured).session (t ++ .evicting evicted)

/-- The law of a session whose only queue has a policy of that kind and room for `c` entries, after
some traffic. Each push under way has room for one entry. -/
structure StreamLaw (setup : Setup α) (kind : OverflowPolicy) (c : Nat) (s : Session α)
    (t : Traffic α) : Prop where
  -- What pushes stored has left the queue, by reads or to make way, or is unread, all in one order.
  stream : t.stored = t.left ++ s.contents
  bounded : s.contents.length + s.pushes ≤ c
  -- Unless entries have to make way, they leave by reads only.
  lossless : kind ≠ .overwrite → t.left = t.reads
  -- When entries make way, all pushes succeed. While all room is that of pushes under way, they
  -- wait.
  succeeds : kind = .overwrite → t.stored = t.pushed
  push_succeeds : kind = .overwrite → s.pushes < c → ∀ name, s.MayPush name → ∀ value,
    Step.IsSpared setup (.act name (.push .configured value)) s →
      Step.result setup (.act name (.push .configured value)) s = .pushed (.ok ())
  emplace_succeeds : kind = .overwrite → s.pushes < c → ∀ name, s.MayPush name →
    ∀ during, Step.UsePolicy during → ∀ value,
      Step.IsSpared setup (.emplace name .configured during (.ok value)) s →
      (Step.run setup (.emplace name .configured during (.ok value)) s).2.isWaiting = false →
      Step.result setup (.emplace name .configured during (.ok value)) s = .pushed (.ok ())
  -- Pushes are turned down by full queues that reject, and by no others.
  push_full : ∀ name value, Step.IsSpared setup (.act name (.push .configured value)) s →
    (Step.result setup (.act name (.push .configured value)) s = .pushed (.error .queueIsFull) ↔
      s.MayPush name ∧ kind = .reject ∧ s.contents.length + s.pushes = c)
  emplace_full : ∀ name during made,
    Step.result setup (.emplace name .configured during made) s = .pushed (.error .queueIsFull) ↔
      s.MayPush name ∧ kind = .reject ∧ s.contents.length + s.pushes = c
  -- Then nothing changes, and the constructor is not run.
  push_unchanged : ∀ name value, Step.IsSpared setup (.act name (.push .configured value)) s →
    Step.result setup (.act name (.push .configured value)) s = .pushed (.error .queueIsFull) →
      (Step.run setup (.act name (.push .configured value)) s).1 = s
  emplace_unchanged : ∀ name during made,
    Step.result setup (.emplace name .configured during made) s = .pushed (.error .queueIsFull) →
      (Step.run setup (.emplace name .configured during made) s).1 = s ∧
        ∃ report, (Step.run setup (.emplace name .configured during made) s).2 =
          .emplaced report none
  -- Reads find nothing just when nothing is unread.
  read_empty : ∀ name, Step.result setup (.act name .read) s = .read (.error .queueIsEmpty) ↔
    s.MayRead name ∧ s.contents = []
  -- Further pushes without a read leave the latest entries there, and the others go oldest first.
  latest : kind = .overwrite → ∀ steps, Step.UsePolicy steps →
    (Step.runAll setup steps s).2.any Answer.isWaiting = false → Step.AreSpared setup steps s →
    (Step.traffics steps (Step.runAll setup steps s).2).reads = [] →
    (Step.traffics steps (Step.runAll setup steps s).2).broken = 0 →
    let pushed := (Step.traffics steps (Step.runAll setup steps s).2).pushed
    let kept := min c (s.contents.length + s.pushes + pushed.length) - s.pushes
    (Step.runAll setup steps s).1.contents = (s.contents ++ pushed).rtake kept ∧
      (Step.traffics steps (Step.runAll setup steps s).2).left = (s.contents ++ pushed).rdrop kept

namespace SoleQueue

variable {kind : OverflowPolicy} {c : Nat} {q q' : SoleQueue α} {policy : Policy} {blocks : Blocks}
  {setup : Setup α} {name : String}

@[simp] theorem contents_session : (q.session policy blocks).contents = q.ring.unread := by
  simp [contents, session, channel]

theorem mayPush_session : (q.session policy blocks).MayPush name ↔ q.MayPush name := by
  simp [Session.MayPush, MayPush, find?_session, handle?]

theorem mayRead_session : (q.session policy blocks).MayRead name ↔ q.MayRead name := by
  simp [Session.MayRead, MayRead, find?_session, handle?]

/-! ### Single pushes and reads -/

/-- How entries are dropped does not count for a step that spares them. -/
theorem Takes.run {step : Step α} {answer : Answer α} (takes : Takes kind q step q' answer)
    (rests : q.Rests c) (uses : step.UsesPolicy) (same : policy.kind = kind)
    (spared : step.IsSpared setup (q.session policy blocks)) :
    Step.run setup step (q.session policy blocks) = (q'.session policy blocks, answer) := by
  rw [← Step.run_spared step _ (rests.sound policy blocks) (uses.isOrdinary _ step) spared]
  exact takes setup.droppable policy blocks rfl same

theorem TakesAll.runAll {steps : List (Step α)} {answers : List (Answer α)}
    (takes : TakesAll kind q steps q' answers) (rests : q.Rests c) (uses : Step.UsePolicy steps)
    (same : policy.kind = kind) (spared : Step.AreSpared setup steps (q.session policy blocks)) :
    Step.runAll setup steps (q.session policy blocks) = (q'.session policy blocks, answers) := by
  rw [← Step.runAll_spared steps _ (rests.sound policy blocks)
    (Step.UsePolicy.areOrdinary _ steps uses) spared]
  exact takes setup.droppable policy blocks rfl same

/-- A read drops nothing. -/
theorem run_read (setup other : Setup α) (s : Session α) (name : String) :
    Step.run setup (.act name .read) s = Step.run other (.act name .read) s := by
  rcases perform_cases s name .read with ⟨result, -, answered⟩ | ⟨c, h, -, -, -, used⟩
  · simp only [Step.run, answered]
  · simp only [Step.run, used]
    rfl

/-- What rejects never waits. -/
theorem ne_reject_of_waits {empty : Prop} (waits : kind = .block ∨ kind = .overwrite ∧ empty) :
    kind ≠ .reject := by
  rcases waits with rfl | ⟨rfl, -⟩ <;> nofun

/-- An overwriting queue waits only while all of its room is that of pushes under way. -/
theorem full_of_waits (waits : OverflowPolicy.overwrite = .block ∨
      OverflowPolicy.overwrite = .overwrite ∧ q.ring.unread = []) (full : q.len = c) :
    q.pushes = c := by
  rcases waits with blocks | ⟨-, nothing⟩
  · cases blocks
  · simpa [len, nothing] using full

theorem Turn.push_full_iff {value : α} {result : Result α} {effects : List (Effect α)}
    (turn : Turn kind c q name (.push .configured value) q' result effects) :
    result = .pushed (.error .queueIsFull) ↔ q.MayPush name ∧ kind = .reject ∧ q.len = c := by
  cases turn with
  | noWriter none => exact ⟨nofun, fun ⟨writer, _⟩ => absurd writer none⟩
  | stored writer room => exact ⟨nofun, fun ⟨_, _, full⟩ => absurd full room.ne⟩
  | denied writer rejects full => exact ⟨fun _ => ⟨writer, rejects, full⟩, fun _ => rfl⟩
  | replaced writer overwrites =>
    subst overwrites
    exact ⟨nofun, fun ⟨_, rejects, _⟩ => nomatch rejects⟩
  | waiting writer waits =>
    exact ⟨nofun, fun ⟨_, rejects, _⟩ => absurd rejects (ne_reject_of_waits waits)⟩
  | handedOut handsOut => cases handsOut

theorem Turn.push_unchanged {value : α} {result : Result α} {effects : List (Effect α)}
    (turn : Turn kind c q name (.push .configured value) q' result effects)
    (full : result = .pushed (.error .queueIsFull)) : q' = q := by
  cases turn with
  | noWriter | denied | waiting => rfl
  | stored | replaced => cases full
  | handedOut handsOut => cases handsOut

theorem Turn.push_succeeds {value : α} {result : Result α} {effects : List (Effect α)}
    (turn : Turn .overwrite c q name (.push .configured value) q' result effects)
    (writer : q.MayPush name) (free : q.pushes < c) : result = .pushed (.ok ()) := by
  cases turn with
  | noWriter none => exact absurd writer none
  | stored | replaced => rfl
  | denied _ rejects => cases rejects
  | waiting _ waits full => exact absurd (full_of_waits waits full) free.ne
  | handedOut handsOut => cases handsOut

theorem Turn.read_empty_iff {result : Result α} {effects : List (Effect α)}
    (turn : Turn kind c q name .read q' result effects) :
    result = .read (.error .queueIsEmpty) ↔ q.MayRead name ∧ q.ring.unread = [] := by
  cases turn with
  | noReader none => exact ⟨nofun, fun ⟨reader, _⟩ => absurd reader none⟩
  | read reader contents => exact ⟨nofun, fun ⟨_, empty⟩ => nomatch contents.symm.trans empty⟩
  | nothing reader contents => exact ⟨fun _ => ⟨reader, contents⟩, fun _ => rfl⟩
  | handedOut handsOut => cases handsOut

/-! ### Pushes with a constructor -/

/-- A push publishes what its constructor made, breaks off, or never ends. -/
theorem call_settle_not_full (k : EntryKind α) (s : Session α) (key : Key) (ring : Ring α)
    (evicted : Option α) (made : Except Fault α) :
    (s.call key ((ring.settle evicted made).andThen (Ring.report k none)) .pushed).result ≠
      .pushed (.error .queueIsFull) := by
  intro full
  cases made with
  | error fault => cases full
  | ok a =>
    simp only [Session.call, Ring.settle] at full
    cases published : ring.publish a with
    | none =>
      rw [published] at full
      cases full
    | some stored =>
      simp only [published, Call.andThen_returned, Ring.report_stored, Ring.returnAfterDrop,
        Call.after] at full
      cases fault : evicted.bind k.dropFault <;> rw [fault] at full <;> cases full

/-- A push that was granted room is not turned down any more. -/
theorem endEmplace_not_full (setup : Setup α) (s : Session α) (number : Nat)
    (overflow : OverflowPolicy) (evicted : Option α) (made : Except Fault α) :
    (s.endEmplace setup number .configured overflow evicted made).result ≠
      .pushed (.error .queueIsFull) := by
  rw [Session.endEmplace]
  split
  · intro full
    cases full
  · rename_i c h found
    dsimp only
    generalize (dropHandle setup.kind (.push number) _).fault = fault
    cases fault with
    | none => exact call_settle_not_full setup.kind s (.push number) c.ring evicted made
    | some fault =>
      intro full
      cases full

theorem emplace_granted_not_full {s : Session α} {number : Nat} {overflow : OverflowPolicy}
    {evicted : Option α}
    (granted : (s.beginEmplace name .configured).result = .granted number overflow evicted)
    (setup : Setup α) (during : List (Step α)) (made : Except Fault α) :
    Step.result setup (.emplace name .configured during made) s ≠ .pushed
      (.error .queueIsFull) := by
  simp only [Step.result, Step.run, granted]
  split
  · nofun
  · exact endEmplace_not_full setup _ number overflow evicted made

theorem Opening.full_iff {result : Result α} {effects : List (Effect α)}
    (opening : Opening kind c q name q' (.ended result) effects) :
    q' = q ∧
      (result = .pushed (.error .queueIsFull) ↔ q.MayPush name ∧ kind = .reject ∧ q.len = c) := by
  cases opening with
  | noWriter none => exact ⟨rfl, nofun, fun ⟨writer, _⟩ => absurd writer none⟩
  | denied writer rejects full => exact ⟨rfl, fun _ => ⟨writer, rejects, full⟩, fun _ => rfl⟩
  | waiting writer waits =>
    exact ⟨rfl, nofun, fun ⟨_, rejects, _⟩ => absurd rejects (ne_reject_of_waits waits)⟩

/-- A push with a constructor is turned down when a push of a value would be, whatever the
constructor. -/
theorem Rests.emplace_full (rests : q.Rests c) (same : policy.kind = kind) (setup : Setup α)
    (blocks : Blocks) (name : String) (during : List (Step α)) (made : Except Fault α) :
    (Step.result setup (.emplace name .configured during made) (q.session policy blocks) =
        .pushed (.error .queueIsFull) ↔ q.MayPush name ∧ kind = .reject ∧ q.len = c) ∧
      (Step.result setup (.emplace name .configured during made) (q.session policy blocks) =
        .pushed (.error .queueIsFull) →
      (Step.run setup (.emplace name .configured during made) (q.session policy blocks)).1 =
          q.session policy blocks ∧
        ∃ report, (Step.run setup (.emplace name .configured during made)
          (q.session policy blocks)).2 =
          .emplaced report none) := by
  obtain ⟨q', begun, effects, begins, opening⟩ := rests.begin kind name
  cases begun with
  | ended result =>
    obtain ⟨rfl, full⟩ := opening.full_iff
    simp only [Step.result, Step.run, begins policy blocks same]
    exact ⟨full, fun _ => ⟨trivial, _, rfl⟩⟩
  | granted number overflow evicted =>
    have granted := congrArg Reply.result (begins policy blocks same)
    have accepted := emplace_granted_not_full granted setup during made
    refine ⟨⟨fun full => absurd full accepted, fun ⟨_, rejects, full⟩ => ?_⟩,
      fun full => absurd full accepted⟩
    cases opening with
    | room _ room => exact absurd full room.ne
    | evicting _ overwrites => cases overwrites.symm.trans rejects

/-- While pushes under way leave room for an entry, an overwriting queue makes room for what a
constructor makes. -/
theorem Rests.emplace_succeeds (rests : q.Rests c) (writer : q.MayPush name) (free : q.pushes < c)
    {during : List (Step α)} (uses : Step.UsePolicy during) (made : Except Fault α) :
    ∃ q' answer, Takes .overwrite q (.emplace name .configured during made) q' answer ∧
      (answer.isWaiting = false → answer.report.result = answerTo made) := by
  obtain ⟨q', begun, effects, begins, opening⟩ := rests.begin .overwrite name
  cases begun with
  | ended result =>
    cases opening with
    | noWriter none => exact absurd writer none
    | denied _ rejects => cases rejects
    | waiting _ waits full => exact absurd (full_of_waits waits full) free.ne
  | granted number overflow evicted =>
    obtain ⟨q', answer, takes, settles⟩ :=
      rests.opened begins opening uses made (Step.runAll_settles .overwrite during uses)
    exact ⟨q', answer, takes, fun finished => (settles finished).1⟩

/-! ### The law -/

/-- What is appended to `left` is taken from the end by its length. -/
theorem rtake_append_length (left kept : List α) :
    (left ++ kept).rtake kept.length = kept ∧ (left ++ kept).rdrop kept.length = left := by
  constructor
  · rw [List.rtake, List.length_append, Nat.add_sub_cancel, List.drop_left]
  · rw [List.rdrop, List.length_append, Nat.add_sub_cancel, List.take_left]

/-- Steps that read nothing and whose constructors all end leave what was pushed last. -/
theorem Rests.latest (rests : q.Rests c) (same : policy.kind = .overwrite)
    {steps : List (Step α)} (uses : Step.UsePolicy steps)
    (finished : (Step.runAll setup steps (q.session policy blocks)).2.any Answer.isWaiting = false)
    (spared : Step.AreSpared setup steps (q.session policy blocks)) :
    let ran := Step.runAll setup steps (q.session policy blocks)
    let t := Step.traffics steps ran.2
    let kept := min c (q.len + t.pushed.length) - q.pushes
    t.reads = [] → t.broken = 0 →
      ran.1.contents = (q.ring.unread ++ t.pushed).rtake kept ∧
        t.left = (q.ring.unread ++ t.pushed).rdrop kept := by
  obtain ⟨q', answers, takes, settles⟩ := Step.runAll_settles .overwrite steps uses q rests
  rw [takes.runAll rests uses same spared] at finished ⊢
  intro ran t kept reads broken
  have settles := settles finished
  have length : q'.ring.unread.length = kept := by
    have filled := settles.moves.filled reads broken
    rw [settles.moves.succeeds rfl, len, settles.pushes] at filled
    exact Nat.eq_sub_of_add_eq filled
  have stream : q.ring.unread ++ t.pushed = t.left ++ q'.ring.unread := by
    rw [← settles.moves.succeeds rfl]
    exact settles.moves.stream
  obtain ⟨last, earlier⟩ := rtake_append_length t.left q'.ring.unread
  rw [stream, ← length, last, earlier]
  exact ⟨contents_session, rfl⟩

/-- What makes way for a push is moved before its constructor runs, and the queue is at rest then.
-/
theorem Rests.grants (rests : q.Rests c) {number : Nat} {overflow : OverflowPolicy}
    {evicted : Option α} {effects : List (Effect α)}
    (begins : Begins kind q name q' (.granted number overflow evicted) effects)
    (opening : Opening kind c q name q' (.granted number overflow evicted) effects) :
    q'.Rests c ∧ (Traffic.evicting evicted).Carries kind q q' := by
  cases opening with
  | room writer room holds =>
    obtain ⟨h, found, -⟩ := writer
    refine ⟨rests.entered begins (mem_keys found) holds, .evicting ?_ fun _ => rfl⟩
    exact holds.unread.symm
  | evicting writer overwrites contents full holds =>
    obtain ⟨h, found, -⟩ := writer
    refine ⟨rests.entered begins (mem_keys found) holds, .evicting ?_ (absurd overwrites)⟩
    exact contents.trans (congrArg _ holds.unread.symm)

/-- The queue is at rest between any two steps, and its contents are those the traffic leaves. -/
theorem Rests.flows (rests : q.Rests c) (same : policy.kind = kind) {s : Session α}
    {t : Traffic α}
    (flows : Flows setup (q.session policy blocks) s t) :
    ∃ q' : SoleQueue α, s = q'.session policy blocks ∧ q'.Rests c ∧ t.Carries kind q q' := by
  induction flows with
  | start => exact ⟨q, rfl, rests, (Traffic.Moves.none rests.fits rfl rfl).toCarries⟩
  | @run _ _ steps _ uses finished spared ih =>
    obtain ⟨between, rfl, rests, before⟩ := ih
    obtain ⟨q', answers, takes, settles⟩ := Step.runAll_settles kind steps uses between rests
    rw [takes.runAll rests uses same spared] at finished ⊢
    have settles := settles finished
    exact ⟨q', rfl, settles.rests, before.append settles.moves.toCarries⟩
  | enter name _ granted ih =>
    obtain ⟨between, rfl, rests, before⟩ := ih
    obtain ⟨q', begun, effects, begins, opening⟩ := rests.begin kind name
    rw [begins policy blocks same] at granted ⊢
    subst granted
    obtain ⟨rests, evicts⟩ := rests.grants begins opening
    exact ⟨q', rfl, rests, before.append evicts⟩

/-- Between two steps the law holds. -/
theorem Rests.law (rests : q.Rests c) (same : policy.kind = kind) {t : Traffic α}
    (carries : t.Carries kind (fresh name c) q) (setup : Setup α) (blocks : Blocks) :
    StreamLaw setup kind c (q.session policy blocks) t := by
  have unread : q.ring.unread = (q.session policy blocks).contents := contents_session.symm
  have total : q.len =
      (q.session policy blocks).contents.length + (q.session policy blocks).pushes := by
    rw [len, unread]
    rfl
  refine ⟨?_, total ▸ rests.fits, carries.lossless, carries.succeeds, ?_, ?_, ?_, ?_,
    ?_, ?_, ?_, ?_⟩
  · have stream := carries.stream
    rwa [unread_fresh, List.nil_append, unread] at stream
  · intro overwrites free name writer value spared
    obtain ⟨q', result, effects, performs, turn⟩ := rests.push kind name value
    rw [Step.result, (takes_act performs).run rests rfl same spared]
    subst overwrites
    exact turn.push_succeeds (mayPush_session.mp writer) free
  · intro overwrites free name writer during uses value spared finished
    subst overwrites
    obtain ⟨q', answer, takes, succeeds⟩ :=
      rests.emplace_succeeds (mayPush_session.mp writer) free uses (.ok value)
    rw [takes.run rests ⟨rfl, uses⟩ same spared] at finished
    rw [Step.result, takes.run rests ⟨rfl, uses⟩ same spared]
    exact succeeds finished
  · intro name value spared
    obtain ⟨q', result, effects, performs, turn⟩ := rests.push kind name value
    rw [Step.result, (takes_act performs).run rests rfl same spared, mayPush_session, ← total]
    exact turn.push_full_iff
  · intro name during made
    rw [mayPush_session, ← total]
    exact (rests.emplace_full same setup blocks name during made).1
  · intro name value spared full
    obtain ⟨q', result, effects, performs, turn⟩ := rests.push kind name value
    rw [Step.result, (takes_act performs).run rests rfl same spared] at full
    rw [(takes_act performs).run rests rfl same spared, turn.push_unchanged full]
  · intro name during made
    exact (rests.emplace_full same setup blocks name during made).2
  · intro name
    obtain ⟨q', result, effects, performs, turn⟩ := rests.read kind name
    rw [Step.result, run_read setup setup.droppable,
      takes_act performs setup.droppable policy blocks rfl same, mayRead_session, ← unread]
    exact turn.read_empty_iff
  · intro overwrites steps uses finished spared reads broken
    rw [← unread]
    exact rests.latest (same.trans overwrites) uses finished spared reads broken

end SoleQueue

/-- Whatever pushes, reads, splits and further writers do to a queue with the policy that was asked
for, also inside constructors, the law of this policy holds, and a queue of the same capacity for
which the policy was asked in another way answers alike. -/
theorem policy_stream_law {setup : Setup α} {p : OverflowPolicy} {c : Nat}
    {source : PolicyQueueSource} (selects : Selects p c setup source) (positive : 0 < c)
    (bounded : c ≤ maxCapacity) (block : setup.kind.HasBlock c) (name : String) :
    (∀ s t, Flows setup (withPolicyQueue setup name source) s t → StreamLaw setup p c s t) ∧
    ∀ (other : Setup α) (alike : PolicyQueueSource), Selects p c other alike →
      other.kind.HasBlock c → ∀ steps, Step.UsePolicy steps →
        Step.AreSpared setup steps (withPolicyQueue setup name source) →
        Step.AreSpared other steps (withPolicyQueue other name alike) →
        (Step.runAll other steps (withPolicyQueue other name alike)).2 =
          (Step.runAll setup steps (withPolicyQueue setup name source)).2 := by
  have rests := SoleQueue.fresh_rests (α := α) name c
  have accepted := (setup.kind.checkSlots_eq_ok_iff c).mpr ⟨positive, bounded, block⟩
  obtain ⟨policy, blocks, same, made⟩ := SoleQueue.withPolicyQueue_selected name selects accepted
  rw [made]
  refine ⟨fun s t flows => ?_, fun other alike reselects block steps uses spared alikeSpared => ?_⟩
  · obtain ⟨q, rfl, settled, carries⟩ := rests.flows same flows
    exact settled.law same carries setup blocks
  · obtain ⟨q, answers, takes, -⟩ := Step.runAll_settles p steps uses _ rests
    have accepted := (other.kind.checkSlots_eq_ok_iff c).mpr ⟨positive, bounded, block⟩
    obtain ⟨alikePolicy, others, alikeSame, alikeMade⟩ :=
      SoleQueue.withPolicyQueue_selected name reselects accepted
    rw [alikeMade] at alikeSpared ⊢
    rw [takes.runAll rests uses alikeSame alikeSpared, takes.runAll rests uses same spared]

/-- Numbers of which one breaks off while it is dropped. -/
def breakable : EntryKind Nat := ⟨8, .verbatim, some (· == 9)⟩

theorem breakable_canDrop {entries : List Nat} (without : ∀ a ∈ entries, (a == 9) = false) :
    breakable.CanDrop entries := by
  rintro fails ⟨⟩
  exact without

/-- A queue of two slots. -/
def twoSlots (setup : Setup Nat) (source : PolicyQueueSource) : Session Nat :=
  withPolicyQueue setup "q" source

/-- Three pushes into a queue, which then is split, with a second writer. -/
def threePushes : List (Step Nat) :=
  [.act "q" (.push .configured 1), .act "q" (.push .configured 2), .act "q" (.push .configured 3),
    .act "q" (.split "w" "r"), .act "w" (.clone "v")]

/-- The setup of such numbers, with the policy that the type of a queue has. -/
def breakableSetup (fixedPolicy : Option OverflowPolicy) : Setup Nat :=
  ⟨breakable, fixedPolicy, .endless⟩

/-- Two slots: the third push makes the oldest entry leave, and a push with a constructor the next
one, before the constructor reads the last. The policy may be that of the type, or of settings. -/
theorem policy_stream_law_of_two_slots :
    let free := breakableSetup none
    let fixed := breakableSetup (some .overwrite)
    let queue := twoSlots free (.ofCapacity 2 .overwrite)
    Selects .overwrite 2 free (.ofCapacity 2 .overwrite) ∧ 0 < 2 ∧ 2 ≤ maxCapacity ∧
      free.kind.HasBlock 2 ∧
      (∃ s t, Flows free queue s t ∧ s.pushes = 1 ∧
        t = ⟨[1, 2, 3], [1, 2, 3], [1, 2], [], 0⟩ ∧ StreamLaw free .overwrite 2 s t) ∧
      (∃ s t, Flows free queue s t ∧ s.pushes = 0 ∧
        t = ⟨[1, 2, 3, 4], [1, 2, 3, 4], [1, 2, 3], [3], 0⟩ ∧ StreamLaw free .overwrite 2 s t) ∧
      Step.UsePolicy threePushes ∧ Step.AreSpared free threePushes queue ∧
      (Step.runAll fixed threePushes (twoSlots fixed (.ofCapacity 2 .block))).2 =
        (Step.runAll free threePushes queue).2 ∧
      (Step.runAll free threePushes (twoSlots free (.ofConfig ⟨2, .overwrite⟩))).2 =
        (Step.runAll free threePushes queue).2 := by
  have selects : Selects .overwrite 2 (breakableSetup none) (.ofCapacity 2 .overwrite) :=
    .byValue rfl
  have positive : 0 < 2 := by decide
  have bounded : 2 ≤ maxCapacity := by decide
  have block : breakable.HasBlock 2 := by decide
  have uses : Step.UsePolicy threePushes := ⟨rfl, rfl, rfl, rfl, rfl, trivial⟩
  have around : Step.UsePolicy [.emplace "v" .configured [.act "r" .read] (.ok 4)] :=
    ⟨⟨rfl, rfl, trivial⟩, trivial⟩
  obtain ⟨law, alike⟩ := policy_stream_law selects positive bounded block "q"
  have spared : Step.AreSpared (breakableSetup none) threePushes
      (twoSlots (breakableSetup none) (.ofCapacity 2 .overwrite)) :=
    breakable_canDrop (by decide +kernel)
  have pushed : Flows (breakableSetup none)
      (twoSlots (breakableSetup none) (.ofCapacity 2 .overwrite)) _ _ :=
    Flows.start.run uses (by decide +kernel) spared
  have granted :
      ((Step.runAll (breakableSetup none) threePushes
        (twoSlots (breakableSetup none) (.ofCapacity 2 .overwrite))).1.beginEmplace
          "v" .configured).result = .granted 0 .overwrite (some 2) := rfl
  have inside := pushed.enter "v" granted
  have after := pushed.run around (by decide +kernel) (breakable_canDrop (by decide +kernel))
  have byType := alike (breakableSetup (some .overwrite)) (.ofCapacity 2 .block) (.byType rfl _)
    block _ uses spared (breakable_canDrop (by decide +kernel))
  have bySettings := alike (breakableSetup none) (.ofConfig ⟨2, .overwrite⟩) .bySettings
    block _ uses spared (breakable_canDrop (by decide +kernel))
  refine ⟨selects, positive, bounded, block, ⟨_, _, inside, rfl, ?_, law _ _ inside⟩,
    ⟨_, _, after, rfl, ?_, law _ _ after⟩, uses, spared, byType, bySettings⟩
  · decide +kernel
  · decide +kernel

end RingQueue.Session
