import RingQueue.Protocol.Machine

/-!
A schedule that lets all threads finish whenever that is possible.

In a turn a thread goes on until it begins a new attempt or waits for another thread. So no thread
is left in the middle of an attempt that found no room, which would make the others fail as well.
-/
namespace RingQueue.Protocol.System

variable {α : Type}

/-- Whether the turn of a thread may end where it is. -/
def mayPause (s : System α) (i : Nat) : Bool :=
  s.threadIs i fun t => t.point.beginsAttempt || t.point.isWait

/-- Steps of thread `i` until it may pause, at most as many as said. -/
def stepUntilPause (i : Nat) : Nat → System α → System α
  | 0, s => s
  | steps + 1, s =>
    let s := s.runThread i
    if s.mayPause i then s else stepUntilPause i steps s

/-- More steps than any attempt has: the clones of a ring take one each, and there are no more than
admitted entries; everything else takes less than twenty. -/
def turnLength (s : System α) : Nat := s.ring.len + 20

def turn (s : System α) (i : Nat) : System α := stepUntilPause i s.turnLength s

def round (s : System α) : System α := (List.range s.threads.length).foldl turn s

/-- Rounds until all threads are done, at most as many as said. -/
def rounds : Nat → System α → System α
  | 0, s => s
  | n + 1, s => if s.isDone then s else rounds n s.round

def callsLeft (s : System α) : Nat :=
  (s.threads.map fun t => t.todo.length + 1).foldl Nat.add 0

/-- Rounds until all threads are done. While any call can be completed each round completes one,
after a first round in which each thread takes up its next call. -/
def finish (s : System α) : System α := rounds (4 * s.callsLeft + 4) s

/-- Steps of thread `i` until a condition holds of it, at most as many as said. -/
def runUntil (i : Nat) (condition : Thread α → Bool) : Nat → System α → System α
  | 0, s => s
  | steps + 1, s =>
    if s.threadIs i condition then s else runUntil i condition steps (s.runThread i)

end RingQueue.Protocol.System
