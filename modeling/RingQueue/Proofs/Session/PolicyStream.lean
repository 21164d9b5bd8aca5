import Mathlib.Data.List.DropRight
import RingQueue.Proofs.Session.PolicyTurns

/-!
What flows through a policy queue.

The values that pushes stored are, in order, those that left the queue followed by those that are
unread (`policy_stream_law`). A `Traffic` is read off the steps and their answers; `Traffic.Moves`
ties it to the contents before and after, first for single turns, then for runs of steps with
constructors that use the same queue.
-/
namespace RingQueue.Session

variable {α : Type}

/-! ## Pushes, reads and further handles -/

/-- Whether an action pushes, reads or hands out the queue. -/
def Action.usesPolicy : Action α → Bool
  | .push .configured _ => true
  | .read => true
  | action => action.isHandOut

mutual

/-- Pushes and reads of policy queues, splits, and further writers. Constructors may do the same. -/
def Step.UsesPolicy : Step α → Prop
  | .create _ _ => False
  | .act _ action => action.usesPolicy = true
  | .emplace _ terms during _ => terms = .configured ∧ Step.UsePolicy during

def Step.UsePolicy : List (Step α) → Prop
  | [] => True
  | step :: rest => step.UsesPolicy ∧ Step.UsePolicy rest

end

mutual

theorem Step.UsesPolicy.isOrdinary (setup : Setup α) :
    (step : Step α) → step.UsesPolicy → step.IsOrdinary setup
  | .create _ _, uses => uses.elim
  | .act _ action, uses => by
    cases action <;> first | rfl | cases uses
  | .emplace _ _ during _, uses => Step.UsePolicy.areOrdinary setup during uses.2

theorem Step.UsePolicy.areOrdinary (setup : Setup α) :
    (steps : List (Step α)) → Step.UsePolicy steps → Step.AreOrdinary setup steps
  | [], _ => trivial
  | step :: rest, uses =>
    ⟨Step.UsesPolicy.isOrdinary setup step uses.1, Step.UsePolicy.areOrdinary setup rest uses.2⟩

end

/-! ## Traffic -/

/-- Whether a push answers that it stored its entry. -/
def Result.isStored : Result α → Bool
  | .pushed (.ok ()) => true
  | _ => false

/-- What went into a queue and what came out of it, each in order. -/
structure Traffic (α : Type) where
  -- What handles pushed that can push.
  pushed : List α
  -- What was pushed by pushes that answered with success.
  stored : List α
  -- What was read or had to make way.
  left : List α
  reads : List α
  -- How many constructors broke off.
  broken : Nat
  deriving DecidableEq

namespace Traffic

def none : Traffic α := ⟨[], [], [], [], 0⟩

instance : Append (Traffic α) where
  append a b := ⟨a.pushed ++ b.pushed, a.stored ++ b.stored, a.left ++ b.left, a.reads ++ b.reads,
    a.broken + b.broken⟩

/-- A push of a value that need not be made. -/
def push (value : α) (result : Result α) (effects : List (Effect α)) : Traffic α where
  pushed := if result.isRefused then [] else [value]
  stored := if result.isStored then [value] else []
  left := if result.isStored then Effect.drops effects else []
  reads := []
  broken := 0

def read (result : Result α) : Traffic α := ⟨[], [], result.handed, result.handed, 0⟩

/-- What makes way for a push before its constructor runs. -/
def evicting (evicted : Option α) : Traffic α := ⟨[], [], evicted.toList, [], 0⟩

/-- A push around what its constructor did: what had to make way left before, and the entry is
stored after. -/
def around (made : Except Fault α) (result : Result α) (effects : List (Effect α))
    (inside : Traffic α) :
    Traffic α where
  pushed := inside.pushed ++ made.toOption.toList
  stored := inside.stored ++ if result.isStored then made.toOption.toList else []
  left := Effect.drops effects ++ inside.left
  reads := inside.reads
  broken := inside.broken + if made.toOption.isSome then 0 else 1

end Traffic

mutual

/-- The traffic of a step by its answer. -/
def Step.traffic : Step α → Answer α → Traffic α
  | .act _ (.push .configured value), answer =>
    .push value answer.report.result answer.report.effects
  | .act _ .read, answer => .read answer.report.result
  | .emplace _ _ during made, .emplaced report (some answers) =>
    .around made report.result report.effects (Step.traffics during answers)
  | _, _ => .none

/-- The traffic of steps, as far as there are answers. -/
def Step.traffics : List (Step α) → List (Answer α) → Traffic α
  | step :: steps, answer :: answers => step.traffic answer ++ Step.traffics steps answers
  | _, _ => .none

end

/-- The traffic turns the contents of one queue into those of the other. -/
structure Traffic.Carries (kind : OverflowPolicy) (q q' : SoleQueue α) (t : Traffic α) : Prop where
  -- First in, first out.
  stream : q.ring.unread ++ t.stored = t.left ++ q'.ring.unread
  -- Only under one policy do entries make way.
  lossless : kind ≠ .overwrite → t.left = t.reads
  -- And under that policy no push is turned down.
  succeeds : kind = .overwrite → t.stored = t.pushed

/-- The same for steps that have ended. -/
structure Traffic.Moves (kind : OverflowPolicy) (c : Nat) (q q' : SoleQueue α)
    (t : Traffic α) : Prop
    extends t.Carries kind q q' where
  -- What is only filled stays full.
  filled : t.reads = [] → t.broken = 0 → q'.len = min c (q.len + t.stored.length)

section Traffic

variable {kind : OverflowPolicy} {c : Nat} {q q' q'' : SoleQueue α} {t u : Traffic α}

theorem Traffic.Carries.append (first : t.Carries kind q q') (second : u.Carries kind q' q'') :
    (t ++ u).Carries kind q q'' where
  stream := by
    calc
      q.ring.unread ++ (t.stored ++ u.stored) = (q.ring.unread ++ t.stored) ++ u.stored :=
        (List.append_assoc _ _ _).symm
      _ = t.left ++ (q'.ring.unread ++ u.stored) := by rw [first.stream, List.append_assoc]
      _ = (t.left ++ u.left) ++ q''.ring.unread := by rw [second.stream, List.append_assoc]
  lossless := by
    intro other
    change t.left ++ u.left = t.reads ++ u.reads
    rw [first.lossless other, second.lossless other]
  succeeds := by
    intro overwrites
    change t.stored ++ u.stored = t.pushed ++ u.pushed
    rw [first.succeeds overwrites, second.succeeds overwrites]

theorem Traffic.Carries.evicting {evicted : Option α}
    (makes_way : q.ring.unread = evicted.toList ++ q'.ring.unread)
    (kept : kind ≠ .overwrite → evicted = Option.none) :
    (Traffic.evicting evicted).Carries kind q q' where
  stream := by
    rw [Traffic.evicting, List.append_nil]
    exact makes_way
  lossless := by
    intro other
    rw [Traffic.evicting, kept other]
    rfl
  succeeds := fun _ => rfl

namespace Traffic.Moves

/-- Nothing has moved while the contents are the same. -/
theorem none (fits : q.len ≤ c) (unread : q'.ring.unread = q.ring.unread)
    (pushes : q'.pushes = q.pushes) : (Traffic.none : Traffic α).Moves kind c q q' where
  stream := by simp [Traffic.none, unread]
  lossless := fun _ => rfl
  succeeds := fun _ => rfl
  filled := by
    intro _ _
    simp only [SoleQueue.len, unread, pushes] at fits ⊢
    exact (Nat.min_eq_right fits).symm

theorem stored {ring : Ring α} {value : α} (unread : ring.unread = q.ring.unread ++ [value])
    (room : q.len < c) :
    (⟨[value], [value], [], [], 0⟩ : Traffic α).Moves kind c q { q with ring } where
  stream := unread.symm
  lossless := fun _ => rfl
  succeeds := fun _ => rfl
  filled := by
    intro _ _
    simp only [SoleQueue.len, unread, List.length_append, List.length_singleton] at room ⊢
    omega

theorem denied (fits : q.len ≤ c) (value : α) :
    (⟨[value], [], [], [], 0⟩ : Traffic α).Moves .reject c q q where
  stream := List.append_nil _
  lossless := fun _ => rfl
  succeeds := nofun
  filled := fun _ _ => (Nat.min_eq_right fits).symm

theorem replaced {ring : Ring α} {value oldest : α} {rest : List α}
    (contents : q.ring.unread = oldest :: rest) (unread : ring.unread = rest ++ [value])
    (full : q.len = c) :
    (⟨[value], [value], [oldest], [], 0⟩ : Traffic α).Moves .overwrite c q { q with ring } where
  stream := by rw [contents, unread, List.singleton_append, List.cons_append]
  lossless := fun other => absurd rfl other
  succeeds := fun _ => rfl
  filled := by
    intro _ _
    simp only [SoleQueue.len, contents, unread, List.length_append, List.length_cons,
      List.length_nil] at full ⊢
    omega

theorem read {ring : Ring α} {oldest : α} (contents : q.ring.unread = oldest :: ring.unread) :
    (⟨[], [], [oldest], [oldest], 0⟩ : Traffic α).Moves kind c q { q with ring } where
  stream := by rw [contents, List.append_nil, List.singleton_append]
  lossless := fun _ => rfl
  succeeds := fun _ => rfl
  filled := nofun

theorem append (first : t.Moves kind c q q') (second : u.Moves kind c q' q'') :
    (t ++ u).Moves kind c q q'' where
  toCarries := first.toCarries.append second.toCarries
  filled := by
    intro reads broken
    obtain ⟨readsBefore, readsAfter⟩ := List.append_eq_nil_iff.mp reads
    obtain ⟨brokenBefore, brokenAfter⟩ := Nat.add_eq_zero_iff.mp broken
    have before := first.filled readsBefore brokenBefore
    have after := second.filled readsAfter brokenAfter
    have total : (t ++ u).stored.length = t.stored.length + u.stored.length := List.length_append
    omega

/-- A push that is granted room moves what its constructor moves, and its own entry last. -/
theorem around {opened inside : SoleQueue α} {made : Except Fault α} {evicted : Option α}
    {effects : List (Effect α)} (moves : t.Moves kind c opened inside)
    (drops : Effect.drops effects = evicted.toList)
    (kept : kind ≠ .overwrite → evicted = Option.none)
    (before : q.ring.unread = evicted.toList ++ opened.ring.unread)
    (granted : opened.len = min c (q.len + 1))
    (after : q'.ring.unread = inside.ring.unread ++ made.toOption.toList)
    (finished : inside.pushes = q'.pushes + 1) :
    (Traffic.around made (SoleQueue.answerTo made) effects t).Moves kind c q q' where
  stream := by
    have stored : (Traffic.around made (SoleQueue.answerTo made) effects t).stored =
        t.stored ++ made.toOption.toList := by
      cases made <;> rfl
    rw [stored, before, after, Traffic.around, drops]
    simp only [List.append_assoc]
    rw [← List.append_assoc opened.ring.unread, moves.stream, List.append_assoc]
  lossless := by
    intro other
    simp only [Traffic.around, drops, kept other, moves.lossless other]
    rfl
  succeeds := by
    intro overwrites
    cases made <;> simp [Traffic.around, SoleQueue.answerTo, Result.isStored,
      moves.succeeds overwrites, Except.toOption]
  filled := by
    intro reads broken
    cases made with
    | error fault => simp [Traffic.around, Except.toOption] at broken
    | ok a =>
      have broken : t.broken = 0 := broken
      have inner := moves.filled reads broken
      simp only [SoleQueue.len, after, finished, List.length_append] at inner granted ⊢
      simp only [Traffic.around, SoleQueue.answerTo, Result.isStored, Except.toOption,
        Option.toList_some, List.length_append, List.length_singleton, if_true]
      omega

end Traffic.Moves

end Traffic

/-! ## Runs -/

namespace SoleQueue

variable {kind : OverflowPolicy} {c : Nat} {q q' : SoleQueue α}

theorem Rests.fits (rests : q.Rests c) : q.len ≤ c := rests.holds.fits

/-- A ring that holds some entries has them unread. -/
theorem holds_unread {ring : Ring α} {entries : List α} {reserved : Nat}
    (holds : ring.Holds c entries reserved) : ring.Holds c ring.unread reserved := by
  rw [holds.unread]
  exact holds

/-- Where a step leads, a queue is at rest, and the traffic accounts for its contents. -/
structure Settles (kind : OverflowPolicy) (c : Nat) (q q' : SoleQueue α)
    (t : Traffic α) : Prop where
  rests : q'.Rests c
  pushes : q'.pushes = q.pushes
  moves : t.Moves kind c q q'

/-- A turn that ends leaves the ring at rest, and moves what its answer says. -/
theorem Turn.moves {name : String} {action : Action α} {result : Result α}
    {effects : List (Effect α)} (turn : Turn kind c q name action q' result effects)
    (rests : q.Rests c) (finished : result ≠ .waiting) (status : Option Status) :
    q'.ring.Holds c q'.ring.unread q'.pushes ∧ (∃ name, .name name ∈ handleKeys q'.handles) ∧
      q'.pushes = q.pushes ∧
      ((Step.act name action).traffic (.plain ⟨result, status, effects⟩)).Moves kind c q q' := by
  have fits := rests.fits
  cases turn with
  | noWriter none => exact ⟨rests.holds, rests.named, rfl, .none fits rfl rfl⟩
  | stored writer room holds =>
    exact ⟨holds_unread holds, rests.named, rfl, .stored holds.unread room⟩
  | denied writer rejects full =>
    subst rejects
    exact ⟨rests.holds, rests.named, rfl, .denied fits _⟩
  | replaced writer overwrites contents full holds =>
    subst overwrites
    exact ⟨holds_unread holds, rests.named, rfl, .replaced contents holds.unread full⟩
  | waiting writer waits full => exact absurd rfl finished
  | noReader none => exact ⟨rests.holds, rests.named, rfl, .none fits rfl rfl⟩
  | read reader contents holds =>
    refine ⟨holds_unread holds, rests.named, rfl, .read ?_⟩
    rw [contents, holds.unread]
  | nothing reader contents => exact ⟨rests.holds, rests.named, rfl, .none fits rfl rfl⟩
  | handedOut handsOut named =>
    refine ⟨rests.holds, named, rfl, ?_⟩
    cases action <;> first | exact .none fits rfl rfl | cases handsOut

/-- An action that uses the policy goes in one of the ways listed. -/
theorem Rests.turn (rests : q.Rests c) (kind : OverflowPolicy) (name : String) {action : Action α}
    (uses : action.usesPolicy = true) :
    ∃ q' result effects, Performs kind q name action q' result effects ∧
      Turn kind c q name action q' result effects := by
  cases action with
  | push terms value =>
    cases terms with
    | asked policy => cases uses
    | configured => exact rests.push kind name value
  | read => exact rests.read kind name
  | split producer consumer => exact rests.handOut kind name rfl
  | clone new => exact rests.handOut kind name rfl
  | _ => cases uses

/-- What an action leads to. -/
theorem Rests.act (rests : q.Rests c) (kind : OverflowPolicy) (name : String) {action : Action α}
    (uses : action.usesPolicy = true) :
    ∃ q' answer, Takes kind q (.act name action) q' answer ∧
      (answer.isWaiting = false → Settles kind c q q' ((Step.act name action).traffic answer)) := by
  obtain ⟨q', result, effects, performs, turn⟩ := rests.turn kind name uses
  have takes := takes_act performs
  refine ⟨q', _, takes, fun finished => ?_⟩
  have ended : result ≠ .waiting := by
    rintro rfl
    cases finished
  obtain ⟨holds, named, pushes, moves⟩ := turn.moves rests ended (q'.status? name)
  have sound := rests.sound_of_takes takes (fun setup => Step.UsesPolicy.isOrdinary setup _ uses)
    finished
  exact ⟨⟨holds, sound, named⟩, pushes, moves⟩

/-- A push that ends before its constructor runs. -/
theorem takes_ended {name : String} {result : Result α} {effects : List (Effect α)}
    (begins : Begins kind q name q' (.ended result) effects) (during : List (Step α))
    (made : Except Fault α) :
    Takes kind q (.emplace name .configured during made) q'
      (.emplaced ⟨result, q'.status? name, effects⟩ none) := by
  intro setup policy blocks _ same
  simp only [Step.run, begins policy blocks same, status?_session]

section Granted

variable {name : String} {evicted : Option α} {ring : Ring α} {effects : List (Effect α)}
  {during : List (Step α)} {answers : List (Answer α)} {inside : SoleQueue α}

/-- A push whose constructor never ends. -/
theorem takes_unending
    (begins : Begins kind q name (q.entered name ring) (.granted q.pushes kind evicted) effects)
    (ran : TakesAll kind (q.entered name ring) during inside answers)
    (waits : answers.any Answer.isWaiting = true) (made : Except Fault α) :
    Takes kind q (.emplace name .configured during made) inside
      (.emplaced ⟨.waiting, inside.status? name, effects⟩ (some answers)) := by
  intro setup policy blocks drops same
  simp only [Step.run, begins policy blocks same, ran setup policy blocks drops same, waits,
    status?_session]
  rfl

/-- A push whose constructor is done. -/
theorem takes_emplaced {made : Except Fault α} {result : Result α} {log : List (Effect α)}
    (begins : Begins kind q name (q.entered name ring) (.granted q.pushes kind evicted) effects)
    (ran : TakesAll kind (q.entered name ring) during inside answers)
    (finished : answers.any Answer.isWaiting = false)
    (ends : ∀ (setup : Setup α) (overflow : OverflowPolicy) (policy : Policy) (blocks : Blocks),
      setup.kind.dropFails = none → (inside.session policy blocks).endEmplace setup q.pushes
        .configured overflow evicted made =
        ⟨q'.session policy blocks, result, log⟩) :
    Takes kind q (.emplace name .configured during made) q'
      (.emplaced ⟨result, q'.status? name, effects ++ log⟩ (some answers)) := by
  intro setup policy blocks drops same
  simp only [Step.run, begins policy blocks same, ran setup policy blocks drops same, finished,
    ends _ _ _ _ drops, status?_session]
  rfl

/-- A push that is granted room, around what its constructor does. -/
theorem Rests.granted (rests : q.Rests c) (writer : q.MayPush name) {entries : List α}
    (begins : Begins kind q name (q.entered name ring) (.granted q.pushes kind evicted) effects)
    (silent : Effect.drops effects = []) (kept : kind ≠ .overwrite → evicted = none)
    (before : q.ring.unread = evicted.toList ++ entries)
    (holds : ring.Holds c entries (q.pushes + 1))
    (grew : entries.length + (q.pushes + 1) = min c (q.len + 1)) (uses : Step.UsePolicy during)
    (made : Except Fault α) (runs : ∀ q : SoleQueue α, q.Rests c → ∃ inside answers,
      TakesAll kind q during inside answers ∧
      (answers.any Answer.isWaiting = false →
        Settles kind c q inside (Step.traffics during answers))) :
    ∃ q' answer, Takes kind q (.emplace name .configured during made) q' answer ∧
      (answer.isWaiting = false → answer.report.result = answerTo made ∧
        Settles kind c q q' ((Step.emplace name .configured during made).traffic answer)) := by
  obtain ⟨h, found, -⟩ := writer
  obtain ⟨inside, answers, ran, settles⟩ := runs _ (rests.entered begins (mem_keys found) holds)
  cases finished : answers.any Answer.isWaiting with
  | true => exact ⟨inside, _, takes_unending begins ran finished made, nofun⟩
  | false =>
    have settles := settles finished
    have last : inside.pushes = q.pushes + 1 := settles.pushes
    obtain ⟨left, leftHolds, ends⟩ := settles.rests.endEmplace last evicted made
    have takes := takes_emplaced begins ran finished (ends · · · · ·)
    refine ⟨inside.exited left q.pushes, _, takes, fun ended => ⟨rfl, ?_, rfl, ?_⟩⟩
    · refine ⟨holds_unread leftHolds, ?_, settles.rests.named_exited left _⟩
      exact rests.sound_of_takes takes (fun setup => Step.UsesPolicy.isOrdinary setup _ ⟨rfl, uses⟩)
        ended
    · have opened : (q.entered name ring).ring.unread = entries := holds.unread
      refine settles.moves.around ?_ kept ?_ ?_ leftHolds.unread last
      · rw [Effect.drops_append, silent, Effect.drops_drop?, List.nil_append]
      · rw [before, opened]
      · rw [len, opened]
        exact grew

end Granted

/-- Whatever made room for a push, the push ends with what its constructor made, if the constructor
ends. -/
theorem Rests.opened (rests : q.Rests c) {name : String} {number : Nat} {overflow : OverflowPolicy}
    {evicted : Option α} {effects : List (Effect α)} {during : List (Step α)}
    (begins : Begins kind q name q' (.granted number overflow evicted) effects)
    (opening : Opening kind c q name q' (.granted number overflow evicted) effects)
    (uses : Step.UsePolicy during) (made : Except Fault α)
    (runs : ∀ q : SoleQueue α, q.Rests c → ∃ inside answers, TakesAll kind q during inside answers ∧
      (answers.any Answer.isWaiting = false →
        Settles kind c q inside (Step.traffics during answers))) :
    ∃ q' answer, Takes kind q (.emplace name .configured during made) q' answer ∧
      (answer.isWaiting = false → answer.report.result = answerTo made ∧
        Settles kind c q q' ((Step.emplace name .configured during made).traffic answer)) := by
  cases opening with
  | room writer room holds =>
    refine rests.granted writer begins rfl (fun _ => rfl) (List.nil_append _).symm holds
      ?_ uses made runs
    simp only [len] at room ⊢
    omega
  | evicting writer overwrites contents full holds =>
    refine rests.granted writer begins rfl (absurd overwrites) contents holds ?_ uses made runs
    simp only [len, contents, List.length_cons] at full ⊢
    omega

end SoleQueue

section Run

variable {kind : OverflowPolicy} {c : Nat}

open SoleQueue

mutual

/-- Whatever uses the policy settles, if it ends, also with constructors that use the same queue. -/
theorem Step.run_settles (kind : OverflowPolicy) : (step : Step α) → step.UsesPolicy →
    (q : SoleQueue α) → q.Rests c → ∃ q' answer, Takes kind q step q' answer ∧
      (answer.isWaiting = false → Settles kind c q q' (step.traffic answer))
  | .create _ _, uses, _, _ => uses.elim
  | .act name _, uses, _, rests => rests.act kind name uses
  | .emplace name _ during made, ⟨rfl, uses⟩, q, rests => by
    obtain ⟨q', begun, effects, begins, opening⟩ := rests.begin kind name
    cases begun with
    | ended result =>
      refine ⟨q', _, takes_ended begins during made, fun _ => ?_⟩
      have same : q' = q := by
        cases opening <;> rfl
      rw [same]
      exact ⟨rests, rfl, .none rests.fits rfl rfl⟩
    | granted number overflow evicted =>
      obtain ⟨q', answer, takes, settles⟩ :=
        rests.opened begins opening uses made (Step.runAll_settles kind during uses)
      exact ⟨q', answer, takes, fun finished => (settles finished).2⟩

theorem Step.runAll_settles (kind : OverflowPolicy) : (steps : List (Step α)) →
    Step.UsePolicy steps →
    (q : SoleQueue α) → q.Rests c → ∃ q' answers, TakesAll kind q steps q' answers ∧
      (answers.any Answer.isWaiting = false → Settles kind c q q' (Step.traffics steps answers))
  | [], _, q, rests =>
    ⟨q, [], fun _ _ _ _ _ => rfl, fun _ => ⟨rests, rfl, .none rests.fits rfl rfl⟩⟩
  | step :: rest, uses, q, rests => by
    obtain ⟨between, answer, takes, settles⟩ := Step.run_settles kind step uses.1 q rests
    cases finished : answer.isWaiting with
    | true =>
      refine ⟨between, [answer], fun setup policy blocks drops same => ?_, by simp [finished]⟩
      simp only [Step.runAll, takes setup policy blocks drops same, finished, if_true]
    | false =>
      have settles := settles finished
      obtain ⟨q', answers, takesAll, settlesAll⟩ :=
        Step.runAll_settles kind rest uses.2 between settles.rests
      refine ⟨q', answer :: answers, fun setup policy blocks drops same => ?_, fun ended => ?_⟩
      · simp only [Step.runAll, takes setup policy blocks drops same, takesAll setup policy
          blocks drops same,
          finished]
        rfl
      · have later := settlesAll (by simpa [finished] using ended)
        exact ⟨later.rests, later.pushes.trans settles.pushes, settles.moves.append later.moves⟩

end

end Run

end RingQueue.Session
