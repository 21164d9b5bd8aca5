import RingQueue.Config
import RingQueue.Ring.Access
import RingQueue.Ring.Whole
import RingQueue.Status

/-!
Queues whose policy decides about pushes into a full ring. What a push leaves over, the value that
was turned down or the entry that had to make way, is dropped.
-/
namespace RingQueue

/-- A ring and the policy under which it is filled. -/
structure PolicyQueue (α : Type) where
  ring : Ring α
  policy : Policy

namespace Ring

variable {α β : Type}

/-- Drops an entry, if there is one, and then returns. That the entry breaks off changes nothing in
the ring. -/
def returnAfterDrop (k : EntryKind α) (a : Option α) (value : β) (r : Ring α) : Call α β where
  outcome :=
    match a.bind k.dropFault with
    | none => .returned value
    | some fault => .aborted fault
  ring := r
  effects := Effect.drop? a

/-- What a push reports once it is done, and what it drops. -/
def report (k : EntryKind α) (turnedDown : Option α) (pushed : Pushed α) (r : Ring α) :
    Call α (Except QueueError Unit) :=
  match pushed with
  | .denied => r.returnAfterDrop k turnedDown (.error .queueIsFull)
  | .stored evicted => r.returnAfterDrop k evicted (.ok ())

def pushUnder (k : EntryKind α) (policy : OverflowPolicy) (a : α) (r : Ring α) :
    Call α (Except QueueError Unit) :=
  (r.push policy a).andThen (report k (some a))

def emplaceUnder (k : EntryKind α) (policy : OverflowPolicy) (make : Unit → Except Fault α)
    (r : Ring α) : Call α (Except QueueError Unit) :=
  (r.emplace policy make).andThen (report k none)

/-- What a read reports: the entry, or that there was none. -/
def reading : Option α → Except QueueError α
  | some a => .ok a
  | none => .error .queueIsEmpty

def read? (r : Ring α) : Call α (Except QueueError α) := r.popFront.map reading

end Ring

namespace PolicyQueue

variable {α : Type}

def create (k : EntryKind α) (capacity : Nat) (policy : Policy) : Built α (PolicyQueue α) :=
  (Ring.create k capacity).map fun ring => ⟨ring, policy⟩

/-- A queue from settings. Settings that are not valid make none, and nothing is reported. -/
def ofConfig (k : EntryKind α) (c : Config) : Except ConfigError (Built α (PolicyQueue α)) :=
  match c.validate with
  | .error e => .error e
  | .ok () =>
    let built := create k c.capacity (.chosen c.policy)
    .ok ⟨built.result, .reported (.queueConfigured c.capacity c.policy) :: built.effects⟩

end PolicyQueue

end RingQueue
