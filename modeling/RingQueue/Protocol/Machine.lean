import RingQueue.Protocol.Thread

/-!
Threads that share a ring, and what their steps can lead to.

`System.runThread` makes the next access of one thread, `Step` is the relation that lets any thread
go next, and `System.run` follows a schedule.
-/
namespace RingQueue.Protocol

variable {α : Type}

/-- A thread: the access it makes next, the calls it still has to make, and the answers to the calls
it has made, the last one first. -/
structure Thread (α : Type) where
  point : Point α
  todo : List (Request α)
  answers : List (Response α)

namespace Thread

def fresh (todo : List (Request α)) : Thread α := ⟨.idle, todo, []⟩

/-- Between two calls, with none left to make. -/
def isDone (t : Thread α) : Bool :=
  match t.point, t.todo with
  | .idle, [] => true
  | _, _ => false

/-- The answers in the order of the calls. -/
def responses (t : Thread α) : List (Response α) := t.answers.reverse

def isConstructing (t : Thread α) : Bool :=
  match t.point with
  | .construct _ _ => true
  | _ => false

def isCloning (t : Thread α) : Bool :=
  match t.point with
  | .cloneSlot _ _ _ _ _ => true
  | _ => false

end Thread

/-- A ring, the threads that use it, and the history of their acts, the last one first. -/
structure System (α : Type) where
  ring : Ring α
  threads : List (Thread α)
  history : List (Nat × Act α)

namespace System

def start (ring : Ring α) (calls : List (List (Request α))) : System α :=
  ⟨ring, calls.map Thread.fresh, []⟩

def answersIn (acts : List (Act α)) : List (Response α) :=
  acts.filterMap fun
    | .answered response => some response
    | _ => none

/-- The next access of thread `i`, which takes up its next call when it is between two. -/
def runThread (s : System α) (i : Nat) : System α :=
  match s.threads[i]? with
  | none => s
  | some t =>
    match t.point, t.todo with
    | .idle, [] => s
    | .idle, request :: todo =>
      { s with
        threads := s.threads.set i { t with point := request.start, todo := todo }
        history := (i, .called) :: s.history }
    | point, _ =>
      let move := advance s.ring point
      { ring := move.ring
        threads := s.threads.set i
          { t with point := move.point, answers := (answersIn move.acts).reverse ++ t.answers }
        history := (move.acts.map fun act => (i, act)).reverse ++ s.history }

def run (s : System α) (schedule : List Nat) : System α := schedule.foldl runThread s

def isDone (s : System α) : Bool := s.threads.all Thread.isDone

def threadIs (s : System α) (i : Nat) (condition : Thread α → Bool) : Bool :=
  (s.threads[i]?.map condition).getD false

def responsesOf (s : System α) (i : Nat) : List (Response α) :=
  (s.threads[i]?.map Thread.responses).getD []

end System

/-- Any thread may go next. An exchange of `read` may also fail without a reason, and is then tried
again from the start. -/
inductive Step : System α → System α → Prop where
  | run (s : System α) (i : Nat) : i < s.threads.length → Step s (s.runThread i)
  | missedTake (s : System α) (i : Nat) (t : Thread α) (position : Nat) (errand : Errand α) :
      s.threads[i]? = some t → t.point = .takeFront position errand →
      Step s { s with threads := s.threads.set i { t with point := .findFront errand } }
  | missedPin (s : System α) (i : Nat) (t : Thread α) (position : Nat) (visit : Visit) :
      s.threads[i]? = some t → t.point = .setPin position visit →
      Step s { s with threads := s.threads.set i { t with point := .findPin visit } }

/-- What any number of steps leads to. -/
inductive Reachable (first : System α) : System α → Prop where
  | start : Reachable first first
  | next {s t : System α} : Reachable first s → Step s t → Reachable first t

theorem reachable_run {first s : System α} (h : Reachable first s) (schedule : List Nat) :
    Reachable first (s.run schedule) := by
  induction schedule generalizing s with
  | nil => exact h
  | cons i rest ih =>
    by_cases inside : i < s.threads.length
    · exact ih (.next h (.run s i inside))
    · have absent : s.threads[i]? = none := List.getElem?_eq_none (Nat.le_of_not_lt inside)
      have same : s.runThread i = s := by simp [System.runThread, absent]
      simpa [System.run, same] using ih h

end RingQueue.Protocol
