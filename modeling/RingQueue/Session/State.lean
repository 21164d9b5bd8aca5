import RingQueue.Session.Step

/-!
Sessions: queues under names.

A new handle under a name that is in use takes the name from the old one once it has been made. A
ring is released with its last handle.
-/
namespace RingQueue

/-- The queues of a session, the blocks that they have taken from the allocator, and how many pushes
are under way because their constructors run. -/
structure Session (α : Type) where
  channels : List (Session.Channel α)
  blocks : Blocks
  pushes : Nat

namespace Session

variable {α β : Type}

def empty : Session α := ⟨[], ⟨0, 0⟩, 0⟩

/-- What is common to all queues of a session. -/
structure Setup (α : Type) where
  kind : EntryKind α
  -- The policy of all policy queues, if it is fixed by their type.
  fixedPolicy : Option OverflowPolicy
  clock : Clock

/-- The policy of a queue for which one was asked by value. -/
def Setup.policy (setup : Setup α) (asked : OverflowPolicy) : Policy :=
  match setup.fixedPolicy with
  | some kind => .fixed kind
  | none => .chosen asked

/-- The session after a step, its result, and what was done on the side. -/
structure Reply (α β : Type) where
  session : Session α
  result : β
  effects : List (Effect α)

/-! ## Finding and giving up handles -/

/-- The channel that a key reaches, and the handle there. -/
def findChannel (key : Key) (channels : List (Channel α)) : Option (Channel α × Handle) :=
  channels.findSome? fun c => (c.handle? key).map fun h => (c, h)

/-- The channels with the ring behind a key replaced. -/
def setRing (key : Key) (ring : Ring α) (channels : List (Channel α)) : List (Channel α) :=
  channels.map fun c => if c.isReached key then { c with ring } else c

/-- The channels but the one that a key reaches. -/
def removeChannel (key : Key) (channels : List (Channel α)) : List (Channel α) :=
  channels.filter fun c => !c.isReached key

/-- What comes of giving up a handle. -/
structure Dropped (α : Type) where
  channels : List (Channel α)
  effects : List (Effect α)
  fault : Option Fault

/-- Takes a key from its handle, if there is one. With the last key the handle is given up, and with
the last handle of a ring the ring. -/
def dropHandle (k : EntryKind α) (key : Key) : List (Channel α) → Dropped α
  | [] => ⟨[], [], none⟩
  | c :: rest =>
    if !c.isReached key then
      let later := dropHandle k key rest
      { later with channels := c :: later.channels }
    else
      let handles := c.without key
      if handles.isEmpty then
        let (fault, effects) := c.ring.release k
        ⟨rest, effects, fault⟩
      else ⟨{ c with handles } :: rest, [], none⟩

/-- Takes several names from their handles, one after the other. -/
def dropHandles (k : EntryKind α) : List String → List (Channel α) → Dropped α
  | [], channels => ⟨channels, [], none⟩
  | name :: names, channels =>
    let first := dropHandle k (.name name) channels
    let others := dropHandles k names first.channels
    ⟨others.channels, first.effects ++ others.effects, first.fault <|> others.fault⟩

/-! ## Changes -/

/-- The session with other channels, after some effects. -/
def after (s : Session α) (channels : List (Channel α)) (effects : List (Effect α)) : Session α :=
  { s with channels, blocks := s.blocks.afterAll effects }

def find? (s : Session α) (key : Key) : Option (Channel α × Handle) := findChannel key s.channels

def status? (s : Session α) (name : String) : Option Status :=
  (s.find? (.name name)).map fun found => found.1.status found.2.role

def answer (s : Session α) (result : β) : Reply α β := ⟨s, result, []⟩

/-- The result of dropping handles: an entry may have broken off. -/
def resultOf (fault : Option Fault) (result : Result α) : Result α :=
  match fault with
  | none => result
  | some fault => .aborted fault

/-- Adds a channel once the old handles of its names are dropped. `log` is what making it did. -/
def place (s : Session α) (k : EntryKind α) (channels : List (Channel α)) (new : Channel α)
    (log : List (Effect α)) (result : Result α) : Reply α (Result α) :=
  let dropped := dropHandles k (new.handles.filterMap (·.name)) channels
  let effects := log ++ dropped.effects
  ⟨s.after (dropped.channels ++ [new]) effects, resultOf dropped.fault result, effects⟩

/-- A queue that has been built gets a name. When it could not be built, nothing changes. -/
def placeBuilt (s : Session α) (k : EntryKind α) (name : String)
    (built : Built α (Ring α × Option Policy)) (result : Result α) : Reply α (Result α) :=
  match built.result with
  | .error fault => ⟨s.after s.channels built.effects, .aborted fault, built.effects⟩
  | .ok (ring, policy) =>
    s.place k s.channels ⟨ring, policy, [.named name .owner]⟩ built.effects result

/-- The result of a call on the ring behind a key. -/
def call (s : Session α) (key : Key) (made : Call α β) (present : β → Result α) :
    Reply α (Result α) :=
  let result :=
    match made.outcome with
    | .returned value => present value
    | .aborted fault => .aborted fault
    | .waiting => .waiting
  ⟨s.after (setRing key made.ring s.channels) made.effects, result, made.effects⟩

end Session

end RingQueue
