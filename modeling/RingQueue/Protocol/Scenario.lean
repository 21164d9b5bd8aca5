import RingQueue.Protocol.Schedule
import RingQueue.Ring.Access

/-!
Queues in use by several threads at once, with results that no schedule can change.
-/
namespace RingQueue.Protocol

variable {α β : Type}

def Request.pushWaiting (a : α) : Request α := .push ⟨.block, a, false, false⟩

/-- A push that is made again until it is not turned down. -/
def Request.pushPersistent (a : α) : Request α := .push ⟨.reject, a, false, true⟩

def Request.pushForced (a : α) : Request α := .push ⟨.overwrite, a, false, false⟩

def Response.poppedEntry? : Response α → Option α
  | popped entry => entry
  | _ => none

def Response.evictedEntry? : Response α → Option α
  | stored evicted => evicted
  | _ => none

def Response.peekedEntry? : Response α → Option α
  | peeked entry => entry
  | _ => none

def Response.duplicatedEntries : Response α → List α
  | duplicated entries => entries
  | _ => []

def fill (entries : List α) (r : Ring α) : Ring α :=
  entries.foldl (fun r a => (r.pushBack a).ring) r

/-- The outcome of a scenario on a new ring. It breaks off when there is no ring of that capacity,
and without a result some thread waits for ever. -/
def onNewRing (capacity : Nat) (scenario : Ring α → Option β) : Outcome β :=
  match checkCapacity capacity with
  | .error fault => .aborted (.capacity fault)
  | .ok () =>
    match scenario (Ring.empty capacity) with
    | some result => .returned result
    | none => .waiting

def leftIn (r : Ring α) : List α := ((r.drain none).outcome.value?).getD []

/-! ## A hand-over between two threads -/

/-- One thread pushes values, waiting for room, while the other pops, waiting for entries. The
entries popped and the ring at the end; nothing when one of the threads waits for ever. -/
def handOver (r : Ring α) (values : List α) (pops : Nat) : Option (List α × Ring α) :=
  let first := System.start r
    [values.map Request.pushWaiting, List.replicate pops Request.popWaiting]
  let last := first.finish
  if last.isDone then some ((last.responsesOf 1).filterMap Response.poppedEntry?, last.ring)
  else none

/-! ## Many producers, one consumer -/

/-- The outcome of an exchange: for each producer its numbers in order of arrival, whether all
producers are gone, and whether nothing is left. -/
structure Exchange where
  received : List (List Nat)
  disconnected : Bool
  emptyAfter : Bool

/-- Each of `producers` threads pushes its number with `0, 1, …` up to `each`, and one thread reads
them all. The push is given. -/
def exchange (push : Nat × Nat → Request (Nat × Nat)) (producers each capacity : Nat) :
    Outcome Exchange := onNewRing capacity fun ring =>
  let calls := (List.range producers).map fun p => (List.range each).map fun i => push (p, i)
  let reader := List.replicate (producers * each) Request.popWaiting
  let last := (System.start ring (calls ++ [reader])).finish
  if last.isDone then
    let entries := (last.responsesOf producers).filterMap Response.poppedEntry?
    some
      { received := (List.range producers).map fun p =>
          (entries.filter fun e => e.1 = p).map fun e => e.2
        disconnected := (last.threads.take producers).all Thread.isDone
        emptyAfter := (leftIn last.ring).isEmpty }
  else none

/-! ## Evictions beside pops -/

structure Race where
  -- Everything that was popped or evicted, sorted.
  seen : List Nat
  -- Both threads saw growing numbers.
  inOrder : Bool
  -- How many entries are left.
  len : Nat
  -- There are more numbers than slots, so that the pushing thread evicts if the other one is slow.
  evicts : Bool

def increases : List Nat → Bool
  | a :: b :: rest => a < b && increases (b :: rest)
  | _ => true

/-- One thread pushes `0, 1, …` by force while the other pops; what is left is popped at the end. -/
def raceForce (count capacity : Nat) : Outcome Race := onNewRing capacity fun ring =>
  let last := (System.start ring
    [(List.range count).map Request.pushForced, List.replicate count Request.pop]).finish
  if last.isDone then
    let evicted := (last.responsesOf 0).filterMap Response.evictedEntry?
    let rest := last.ring.drain none
    let popped :=
      (last.responsesOf 1).filterMap Response.poppedEntry? ++ (rest.outcome.value?).getD []
    some
      { seen := (evicted ++ popped).mergeSort (· ≤ ·)
        inOrder := increases evicted && increases popped
        len := rest.ring.len
        evicts := capacity < count }
  else none

/-! ## Meetings at the front -/

structure Eviction (α : Type) where
  evicted : Option α
  rest : List α

/-- While one thread clones the first entry of a full ring, another pushes by force; it has to wait
for the first one. The entry cloned, the one evicted, and what is left. -/
def peekWhileEvicting (values : List α) (new : α) : Outcome (Option α × Eviction α) :=
  onNewRing values.length fun ring =>
  let first := System.start (fill values ring) [[.peek], [.pushForced new]]
  -- Pinning the front takes fewer than eight accesses.
  let looking := first.runUntil 0 Thread.isCloning 8
  let last := (looking.turn 1).finish
  if last.isDone then
    some ((last.responsesOf 0).findSome? Response.peekedEntry?,
      ⟨(last.responsesOf 1).findSome? Response.evictedEntry?, leftIn last.ring⟩)
  else none

/-- Two threads clone a full ring at the same time. The clones, and what is left in the ring. -/
def cloneWhileCloning (values : List α) : Outcome (List (List α)) :=
  onNewRing values.length fun ring =>
  let first := System.start (fill values ring) [[.duplicate], [.duplicate]]
  let cloning := first.runUntil 0 Thread.isCloning 8
  let last := (cloning.turn 1).finish
  if last.isDone then
    some [(last.responsesOf 0).flatMap Response.duplicatedEntries,
      (last.responsesOf 1).flatMap Response.duplicatedEntries, leftIn last.ring]
  else none

/-- While the constructor of an entry runs that takes the only slot, another thread pushes by force;
it has to wait until that entry is published, and evicts it. -/
def forceWhileConstructing (firstValue secondValue : α) : Outcome (Eviction α) :=
  onNewRing 1 fun ring =>
  let first := System.start ring [[.pushWaiting firstValue], [.pushForced secondValue]]
  let making := first.runUntil 0 Thread.isConstructing 8
  let last := ((making.turn 1).turn 1).finish
  if last.isDone then
    some ⟨(last.responsesOf 1).findSome? Response.evictedEntry?, leftIn last.ring⟩
  else none

end RingQueue.Protocol
