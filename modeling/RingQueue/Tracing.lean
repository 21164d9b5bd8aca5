import RingQueue.Effect

/-!
Who takes down the events of a process.

A process has at most one listener for all of its threads, and the first that is installed stays.
Besides, a thread may keep a record of its own events. Whether evictions are of any interest is
settled once, by the first thread that evicts an entry: if nobody listens to this thread, evictions
are missing in all records from then on. Installing a listener settles that all events are of
interest.
-/
namespace RingQueue

/-- Whether anybody is interested in a kind of event. -/
inductive Interest where
  | undecided
  | some
  | none
  deriving DecidableEq, Repr

structure Tracing where
  -- Whether there is a listener.
  installed : Bool
  -- Whether evictions are of interest.
  evictions : Interest
  deriving DecidableEq, Repr

namespace Tracing

/-- A process before anything was installed and any entry evicted. -/
def fresh : Tracing := ⟨false, .undecided⟩

/-- Installs a listener unless there is one; tells whether it did. -/
def install (t : Tracing) : Bool × Tracing := (!t.installed, ⟨true, .some⟩)

/-- Settles the interest in evictions unless it is settled. -/
def settle (interest : Interest) (t : Tracing) : Tracing :=
  if t.evictions = .undecided then { t with evictions := interest } else t

/-- The process after a thread has run; it is told whether this thread evicted an entry, and whether
it keeps a record. -/
def afterThread (evicted records : Bool) (t : Tracing) : Tracing :=
  if evicted then t.settle (if records then .some else .none) else t

/-- Whether an event is taken down by a thread that keeps a record. -/
def follows (t : Tracing) (e : Event) : Bool := !e.isEviction || t.evictions ≠ .none

/-- The events of a log as a record shows them. -/
def record {α : Type} (t : Tracing) (log : List (Effect α)) : List Event :=
  (Effect.events log).filter t.follows

end Tracing

end RingQueue
