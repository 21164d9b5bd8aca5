import RingQueue.Session.Channel

/-!
What can be asked of the queues of a session, and what is answered.
-/
namespace RingQueue.Session

/-- From what a queue without policy is made. -/
inductive QueueSource (α : Type) where
  | ofCapacity (capacity : Nat)
  | filled (capacity : Nat) (value : α)

/-- From what a queue with a policy is made. -/
inductive PolicyQueueSource where
  -- The policy counts only where policies are chosen by value.
  | ofCapacity (capacity : Nat) (policy : OverflowPolicy)
  | ofConfig (config : Config)

inductive Creation (α : Type) where
  | queue (source : QueueSource α)
  | policyQueue (source : PolicyQueueSource)

/-- What a push does when the ring is full: what the caller says, or what the queue's policy says.
-/
inductive Terms where
  | asked (policy : OverflowPolicy)
  | configured
  deriving DecidableEq, Repr

/-- What a caller can do whom no other handle disturbs. -/
inductive Exclusive (α : Type) where
  | reserve (capacity : Nat)
  | clear
  | popFront
  | front
  | tryPushBack (value : α)
  | forcePushBack (value : α)

/-- What is asked of one handle. -/
inductive Action (α : Type) where
  | split (producer consumer : String)
  | drop
  | observe
  | describe (onLines : Bool)
  | push (terms : Terms) (value : α)
  | pushWithin (timeout : Timeout) (value : α)
  | pushFromThread (consumer : String) (values : List α) (pops : Nat)
  | clone (name : String)
  | popFront
  | popWithin (timeout : Timeout)
  | read
  | readWithin (timeout : Timeout)
  | front
  | drain (limit : Option Nat)
  | reserve (capacity : Nat)
  | clear
  | blocks
  | policy
  | exclusive (operation : Exclusive α)

/-- One step of a session. A push may make its entry by a constructor, which runs steps of its own
and then makes the entry or breaks off. -/
inductive Step (α : Type) where
  | create (name : String) (creation : Creation α)
  | act (name : String) (action : Action α)
  | emplace (name : String) (terms : Terms) (during : List (Step α)) (made : Except Fault α)

inductive ExclusiveResult (α : Type) where
  | done
  | entry (entry : Option α)
  | tried (result : Except α Unit)

inductive Result (α : Type) where
  | done
  | nothing
  | text (text : String)
  | tried (result : Except α Unit)
  | constructed (stored : Bool)
  | evicted (entry : Option α)
  | entry (entry : Option α)
  | entries (entries : List α)
  | pushed (result : Except QueueError Unit)
  | read (result : Except QueueError α)
  | popList (entries : List (Option α))
  | readList (results : List (Except QueueError α))
  | configured (result : Except ConfigError Unit)
  | policy (policy : Policy)
  | blocks (blocks : Blocks)
  -- The outcome of an exclusive operation, or nothing when another handle was in the way.
  | exclusive (result : Option (ExclusiveResult α))
  | aborted (fault : Fault)
  -- The step never ends, and no other follows.
  | waiting
  -- There is no such handle, or it does not offer the operation.
  | unavailable

/-- What a step did: its result, the state of its handle afterwards, and what was done on the side.
-/
structure Report (α : Type) where
  result : Result α
  status : Option Status
  effects : List (Effect α)

/-- The answer to a step. For a constructor also the answers to the steps that it ran, unless it was
not run. -/
inductive Answer (α : Type) where
  | plain (report : Report α)
  | emplaced (report : Report α) (constructed : Option (List (Answer α)))

namespace Answer

variable {α : Type}

def report : Answer α → Report α
  | plain report => report
  | emplaced report _ => report

def isWaiting (a : Answer α) : Bool :=
  match a.report.result with
  | .waiting => true
  | _ => false

end Answer

end RingQueue.Session
