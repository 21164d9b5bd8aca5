import RingQueue.Policy

/-!
What queues report about themselves while they work.
-/
namespace RingQueue

/-- How much attention a report asks for. -/
inductive Level where
  | trace
  | debug
  deriving DecidableEq, Repr

def Level.name : Level → String
  | trace => "TRACE"
  | debug => "DEBUG"

inductive Event where
  | ringCreated (capacity : Nat)
  | queueConfigured (capacity : Nat) (policy : OverflowPolicy)
  | evicted (capacity : Nat)
  -- A push begins to wait for room.
  | spinning (capacity : Nat)
  | ringGrown (oldCapacity newCapacity unread : Nat)
  | clearing (capacity discarded : Nat)
  | pushTimedOut (capacity : Nat)
  | popTimedOut (capacity : Nat)
  deriving DecidableEq, Repr

inductive FieldValue where
  | number (n : Nat)
  | text (s : String)
  deriving DecidableEq, Repr

namespace Event

def isEviction : Event → Bool
  | evicted _ => true
  | _ => false

def level : Event → Level
  | ringCreated _ => .trace
  | queueConfigured _ _ => .trace
  | evicted _ => .trace
  | spinning _ => .trace
  | ringGrown _ _ _ => .debug
  | clearing _ _ => .debug
  | pushTimedOut _ => .debug
  | popTimedOut _ => .debug

def message : Event → String
  | ringCreated _ => "ring created"
  | queueConfigured _ _ => "policy queue configured"
  | evicted _ => "queue full, evicted oldest entry"
  | spinning _ => "queue full, spinning for admission"
  | ringGrown _ _ _ => "ring grown"
  | clearing _ _ => "clearing ring"
  | pushTimedOut _ => "push timed out on full queue"
  | popTimedOut _ => "pop timed out on empty queue"

def fields : Event → List (String × FieldValue)
  | ringCreated capacity => [("capacity", .number capacity)]
  | queueConfigured capacity policy =>
    [("capacity", .number capacity), ("policy", .text policy.label)]
  | evicted capacity => [("capacity", .number capacity)]
  | spinning capacity => [("capacity", .number capacity)]
  | ringGrown old new unread =>
    [("old_capacity", .number old), ("new_capacity", .number new), ("len", .number unread)]
  | clearing capacity discarded =>
    [("capacity", .number capacity), ("discarded", .number discarded)]
  | pushTimedOut capacity => [("capacity", .number capacity)]
  | popTimedOut capacity => [("capacity", .number capacity)]

end Event

end RingQueue
