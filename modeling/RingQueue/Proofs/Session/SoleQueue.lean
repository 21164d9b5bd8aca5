import RingQueue.Proofs.Session.Conservation

/-!
A session with one policy queue.

Pushes, reads, splits and further writers leave the queue its policy and take nothing from the
allocator. What they do is the same under all policies of one kind, whether the type of the queue
fixed the policy or a value chose it, and for all entries that can be dropped.
-/
namespace RingQueue.Session

variable {α β : Type}

/-- The result of a call by its outcome. -/
def Result.ofOutcome (present : β → Result α) : Outcome β → Result α
  | .returned value => present value
  | .aborted fault => .aborted fault
  | .waiting => .waiting

/-- All of a session with one policy queue but the policy and the blocks. -/
structure SoleQueue (α : Type) where
  ring : Ring α
  handles : List Handle
  pushes : Nat

namespace SoleQueue

def channel (q : SoleQueue α) (policy : Policy) : Channel α := ⟨q.ring, some policy, q.handles⟩

def session (q : SoleQueue α) (policy : Policy) (blocks : Blocks) : Session α :=
  ⟨[q.channel policy], blocks, q.pushes⟩

/-- The handle of a name. -/
def handle? (q : SoleQueue α) (name : String) : Option Handle :=
  q.handles.find? (·.answersTo (.name name))

/-- What is seen of the handle of a name. The policy does not show. -/
def status? (q : SoleQueue α) (name : String) : Option Status :=
  (q.handle? name).map fun h => Channel.status ⟨q.ring, none, q.handles⟩ h.role

/-- The number of entries that the queue has room for or holds. -/
def len (q : SoleQueue α) : Nat := q.ring.unread.length + q.pushes

variable {q q' : SoleQueue α} {name : String} {h : Handle} {policy : Policy} {blocks : Blocks}

theorem find?_session (q : SoleQueue α) (policy : Policy) (blocks : Blocks) (key : Key) :
    (q.session policy blocks).find? key =
      (q.handles.find? (·.answersTo key)).map fun h => (q.channel policy, h) := by
  simp only [find?, findChannel, session, List.findSome?_cons, List.findSome?_nil,
    Channel.handle?, channel]
  cases q.handles.find? (·.answersTo key) <;> rfl

theorem find?_of_handle? (found : q.handle? name = some h) :
    (q.session policy blocks).find? (.name name) = some (q.channel policy, h) := by
  rw [find?_session]
  exact congrArg _ found

theorem status?_session (q : SoleQueue α) (policy : Policy) (blocks : Blocks) (name : String) :
    (q.session policy blocks).status? name = q.status? name := by
  rw [Session.status?, find?_session, Option.map_map]
  rfl

/-- A key that leads anywhere leads to the only queue. -/
theorem located (policy : Policy) (blocks : Blocks) {key : Key}
    (reached : key ∈ handleKeys q.handles) :
    Located key (q.session policy blocks).channels [] (q.channel policy) [] :=
  ⟨rfl, reached, List.not_mem_nil, List.not_mem_nil⟩

theorem handle?_eq_some (found : q.handle? name = some h) : h ∈ q.handles ∧ .name name ∈ h.keys :=
  Channel.handle?_eq_some (c := q.channel (.fixed .reject)) found

theorem mem_keys (found : q.handle? name = some h) : .name name ∈ handleKeys q.handles :=
  List.mem_flatMap.mpr ⟨h, handle?_eq_some found⟩

/-- A key that leads anywhere is found. -/
theorem find?_of_mem (policy : Policy) (blocks : Blocks) {key : Key}
    (reached : key ∈ handleKeys q.handles) :
    ∃ h, (q.session policy blocks).find? key = some (q.channel policy, h) := by
  obtain ⟨h, member, here⟩ := List.mem_flatMap.mp reached
  have some_handle : (q.handles.find? (·.answersTo key)).isSome :=
    List.find?_isSome.mpr ⟨h, member, (h.answersTo_iff key).mpr here⟩
  obtain ⟨h, found⟩ := Option.isSome_iff_exists.mp some_handle
  exact ⟨h, by rw [find?_session, found]; rfl⟩

/-- A call through a handle only changes the ring. -/
theorem call_session {key : Key} (reached : key ∈ handleKeys q.handles) {made : Call α β}
    (present : β → Result α) (blockless : blocks.afterAll made.effects = blocks) :
    (q.session policy blocks).call key made present =
      ⟨({ q with ring := made.ring } : SoleQueue α).session policy blocks,
        .ofOutcome present made.outcome, made.effects⟩ := by
  have changed := (located policy blocks reached).setRing made.ring
  have blockless : (q.session policy blocks).blocks.afterAll made.effects = blocks := blockless
  simp only [Session.call, Session.after, changed, blockless]
  cases made.outcome <;> rfl

/-! ## Queues at rest -/

/-- Between two actions the ring counts the pushes under way, and some handle has a name. -/
structure Rests (q : SoleQueue α) (c : Nat) : Prop where
  holds : q.ring.Holds c q.ring.unread q.pushes
  sound : ∀ policy blocks, (q.session policy blocks).Sound
  named : ∃ name, .name name ∈ handleKeys q.handles

/-- Neither policy nor blocks count for soundness. -/
theorem sound_session (sound : (q.session policy blocks).Sound) (other : Policy) (others : Blocks) :
    (q.session other others).Sound := by
  have each := sound.consistent.each (q.channel policy) (List.mem_singleton_self _)
  refine ⟨⟨?_, sound.consistent.distinct⟩, sound.under_way⟩
  intro c member
  rw [List.mem_singleton.mp member]
  exact ⟨each.rest, each.sole, each.reached⟩

theorem Rests.distinct {c : Nat} (rests : q.Rests c) : (handleKeys q.handles).Nodup :=
  (List.nodup_flatMap.mp (rests.sound (.fixed .reject) ⟨0, 0⟩).consistent.distinct).1
    (q.channel (.fixed .reject)) (List.mem_singleton_self _)

theorem Rests.under_way {c : Nat} (rests : q.Rests c) (number : Nat) :
    .push number ∈ handleKeys q.handles ↔ number < q.pushes := by
  have under_way := (rests.sound (.fixed .reject) ⟨0, 0⟩).under_way number
  simpa [session, channel, Channel.keys] using under_way

/-! ## The same under all policies of one kind -/

/-- Under all policies of the kind the step leads to `q'` and has this answer. -/
def Takes (kind : OverflowPolicy) (q : SoleQueue α) (step : Step α) (q' : SoleQueue α)
    (answer : Answer α) :
    Prop :=
  ∀ (setup : Setup α) (policy : Policy) (blocks : Blocks), setup.kind.dropFails = none →
    policy.kind = kind →
    Step.run setup step (q.session policy blocks) = (q'.session policy blocks, answer)

/-- Under all policies of the kind the steps lead to `q'` and have these answers. -/
def TakesAll (kind : OverflowPolicy) (q : SoleQueue α) (steps : List (Step α)) (q' : SoleQueue α)
    (answers : List (Answer α)) : Prop :=
  ∀ (setup : Setup α) (policy : Policy) (blocks : Blocks), setup.kind.dropFails = none →
    policy.kind = kind →
    Step.runAll setup steps (q.session policy blocks) = (q'.session policy blocks, answers)

variable {kind : OverflowPolicy} {c : Nat} {step : Step α}

/-- An action that replies alike under all policies of the kind. -/
theorem takes_act {action : Action α} {result : Result α} {effects : List (Effect α)}
    (performed : ∀ (setup : Setup α) (policy : Policy) (blocks : Blocks),
      setup.kind.dropFails = none →
      policy.kind = kind → (q.session policy blocks).perform setup name action =
        ⟨q'.session policy blocks, result, effects⟩) :
    Takes kind q (.act name action) q' (.plain ⟨result, q'.status? name, effects⟩) := by
  intro setup policy blocks drops same
  simp only [Step.run, performed setup policy blocks drops same, status?_session]

/-- Ordinary steps keep the session sound; this does not depend on how entries are dropped, so that
any setup shows it. -/
theorem Rests.sound_of_takes (rests : q.Rests c) {answer : Answer α}
    (takes : Takes kind q step q' answer) (ordinary : ∀ setup, step.IsOrdinary setup)
    (finished : answer.isWaiting = false) (other : Policy) (others : Blocks) :
    (q'.session other others).Sound := by
  have droppable : (⟨.plain, none, .endless⟩ : Setup α).kind.dropFails = none := rfl
  have ran := takes ⟨.plain, none, .endless⟩ (.fixed kind) ⟨0, 0⟩ droppable rfl
  have continues := Step.run_continues droppable step _ (rests.sound (.fixed kind) ⟨0, 0⟩)
    (ordinary _) (by rw [ran]; exact finished)
  rw [ran] at continues
  exact sound_session continues.sound other others

end SoleQueue

end RingQueue.Session
