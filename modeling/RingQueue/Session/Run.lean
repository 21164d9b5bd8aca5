import RingQueue.Session.Perform

/-!
Whole sessions: steps one after the other, with the steps that constructors run inside them.
-/
namespace RingQueue.Session

variable {α : Type}

mutual

/-- One step. The steps of a constructor run between the request for room and the publication. -/
def Step.run (setup : Setup α) : Step α → Session α → Session α × Answer α
  | .create name creation, s =>
    let reply := s.create setup name creation
    (reply.session, .plain ⟨reply.result, reply.session.status? name, reply.effects⟩)
  | .act name action, s =>
    let reply := s.perform setup name action
    (reply.session, .plain ⟨reply.result, reply.session.status? name, reply.effects⟩)
  | .emplace name terms during made, s =>
    let begun := s.beginEmplace name terms
    match begun.result with
    | .ended result =>
      (begun.session, .emplaced ⟨result, begun.session.status? name, begun.effects⟩ none)
    | .granted number policy evicted =>
      let (inside, answers) := Step.runAll setup during begun.session
      -- The constructor never ends, so that its push is still under way.
      if answers.any Answer.isWaiting then
        (inside, .emplaced ⟨.waiting, inside.status? name, begun.effects⟩ (some answers))
      else
        let ended := inside.endEmplace setup number terms policy evicted made
        (ended.session,
          .emplaced ⟨ended.result, ended.session.status? name, begun.effects ++ ended.effects⟩
            (some answers))

/-- Steps one after the other, up to the first that never ends. -/
def Step.runAll (setup : Setup α) : List (Step α) → Session α → Session α × List (Answer α)
  | [], s => (s, [])
  | step :: rest, s =>
    let (s, answer) := Step.run setup step s
    if answer.isWaiting then (s, [answer])
    else
      let (s, answers) := Step.runAll setup rest s
      (s, answer :: answers)

end

/-- Puts a name into its place among names in order. -/
def insertName (name : String) : List String → List String
  | [] => [name]
  | other :: rest => if name ≤ other then name :: other :: rest else other :: insertName name rest

def names (s : Session α) : List String :=
  (s.channels.flatMap fun c => c.handles.filterMap (·.name)).foldr insertName []

/-- Drops all handles in the order of their names. -/
def close (setup : Setup α) (s : Session α) : Reply α (Option Fault) :=
  let dropped := dropHandles setup.kind s.names s.channels
  ⟨s.after dropped.channels dropped.effects, dropped.fault, dropped.effects⟩

/-- A whole session: the answers to its steps, the blocks that are left, and what was done on the
side when the remaining handles were dropped. -/
structure Transcript (α : Type) where
  answers : List (Answer α)
  blocks : Blocks
  effects : List (Effect α)

mutual

def Answer.evicts : Answer α → Bool
  | .plain report => Effect.evicts report.effects
  | .emplaced report none => Effect.evicts report.effects
  | .emplaced report (some answers) => Effect.evicts report.effects || anyEvicts answers

def anyEvicts : List (Answer α) → Bool
  | [] => false
  | answer :: rest => answer.evicts || anyEvicts rest

end

def Transcript.evicts (t : Transcript α) : Bool := anyEvicts t.answers

def run (setup : Setup α) (steps : List (Step α)) : Transcript α :=
  let (s, answers) := Step.runAll setup steps .empty
  let closed := s.close setup
  ⟨answers, closed.session.blocks, closed.effects⟩

end RingQueue.Session
