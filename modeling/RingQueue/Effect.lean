import RingQueue.Batch
import RingQueue.Event

/-!
What an operation does besides its result, in the order in which it does it: blocks of slots come
and go, entries are cloned and dropped, and events are reported. The views pick one kind out of a
log.
-/
namespace RingQueue

/-- One thing that an operation does on the side. -/
inductive Effect (α : Type) where
  -- A block of that many slots was taken from the allocator.
  | allocated (slots : Nat)
  -- A block of that many slots was given back.
  | freed (slots : Nat)
  | cloned (copies : Batch α)
  | dropped (entries : Batch α)
  | reported (event : Event)

/-- How many blocks of slots are in use and how many there ever were. -/
structure Blocks where
  live : Nat
  total : Nat
  deriving DecidableEq, Repr

namespace Effect

variable {α : Type}

def drop? : Option α → List (Effect α)
  | none => []
  | some a => [dropped (.single a)]

def drops (log : List (Effect α)) : List α :=
  log.flatMap fun
    | dropped entries => entries.toList
    | _ => []

def clones (log : List (Effect α)) : List α :=
  log.flatMap fun
    | cloned copies => copies.toList
    | _ => []

def events (log : List (Effect α)) : List Event :=
  log.filterMap fun
    | reported event => some event
    | _ => none

def evicts (log : List (Effect α)) : Bool := (events log).any Event.isEviction

def allocations (log : List (Effect α)) : List Nat :=
  log.filterMap fun
    | allocated slots => some slots
    | _ => none

def releases (log : List (Effect α)) : List Nat :=
  log.filterMap fun
    | freed slots => some slots
    | _ => none

@[simp] theorem drops_append (a b : List (Effect α)) : drops (a ++ b) = drops a ++ drops b := by
  simp [drops]

@[simp] theorem clones_append (a b : List (Effect α)) : clones (a ++ b) = clones a ++ clones b := by
  simp [clones]

@[simp] theorem events_append (a b : List (Effect α)) : events (a ++ b) = events a ++ events b := by
  simp [events]

@[simp] theorem allocations_append (a b : List (Effect α)) :
    allocations (a ++ b) = allocations a ++ allocations b := by
  simp [allocations]

@[simp] theorem releases_append (a b : List (Effect α)) :
    releases (a ++ b) = releases a ++ releases b := by
  simp [releases]

end Effect

def Blocks.after {α : Type} (b : Blocks) : Effect α → Blocks
  | .allocated _ => ⟨b.live + 1, b.total + 1⟩
  | .freed _ => ⟨b.live - 1, b.total⟩
  | _ => b

def Blocks.afterAll {α : Type} (b : Blocks) (log : List (Effect α)) : Blocks :=
  log.foldl Blocks.after b

end RingQueue
