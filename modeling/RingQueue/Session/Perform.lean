import RingQueue.Protocol.Scenario
import RingQueue.Session.State

/-!
What the handles of a session do, one action at a time.
-/
namespace RingQueue.Session

variable {α β : Type}

/-! ## Results -/

/-- What a push answers, by its terms. -/
def showPush (policy : OverflowPolicy) (value : α) : Pushed α → Result α
  | .denied => .tried (.error value)
  | .stored evicted =>
    match policy with
    | .block => .done
    | .reject => .tried (.ok ())
    | .overwrite => .evicted evicted

def showEmplace (policy : OverflowPolicy) : Pushed α → Result α
  | .denied => .constructed false
  | .stored evicted =>
    match policy with
    | .block => .done
    | .reject => .constructed true
    | .overwrite => .evicted evicted

/-! ## Which handle offers what -/

/-- The operations of the six kinds of handles. -/
def Action.isOffered (role : Role) (hasPolicy : Bool) : Action α → Bool
  | .drop => true
  | .observe => true
  | .describe _ => true
  | .split _ _ => role = .owner
  | .push (.asked _) _ => !hasPolicy && role ≠ .consumer
  | .push .configured _ => hasPolicy && role ≠ .consumer
  | .pushWithin _ _ => !hasPolicy && role = .producer
  | .pushFromThread _ _ _ => role = .producer
  | .clone _ => role = .producer || (!hasPolicy && role = .owner)
  | .popFront => !hasPolicy && role ≠ .producer
  | .popWithin _ => !hasPolicy && role = .consumer
  | .read => hasPolicy && role ≠ .producer
  | .readWithin _ => hasPolicy && role = .consumer
  | .front => !hasPolicy && role ≠ .producer
  | .drain _ => role = .consumer || (!hasPolicy && role = .owner)
  | .reserve _ => !hasPolicy && role = .owner
  | .clear => !hasPolicy && role = .owner
  | .blocks => !hasPolicy && role = .owner
  | .policy => hasPolicy && role ≠ .consumer
  | .exclusive _ => if hasPolicy then role = .owner else role = .consumer

/-- Whether an action needs its handle for itself, so that no push may keep it. -/
def Action.needsAll : Action α → Bool
  | .split _ _ => true
  | .reserve _ => true
  | .clear => true
  | .exclusive _ => true
  | _ => false

/-! ## New queues, and single actions -/

/-- An operation of a caller whom no other handle disturbs. -/
def Exclusive.apply (k : EntryKind α) (r : Ring α) : Exclusive α → Call α (ExclusiveResult α)
  | reserve capacity => (r.reserve k capacity).map fun _ => .done
  | clear => (r.clear k).map fun _ => .done
  | popFront => r.popFront.map .entry
  | front => .returned (.entry r.front?) r []
  | tryPushBack value => (r.tryPushBack value).map .tried
  | forcePushBack value => (r.forcePushBack value).map .entry

def create (setup : Setup α) (s : Session α) (name : String) (creation : Creation α) :
    Reply α (Result α) :=
  match creation with
  | .queue (.ofCapacity capacity) =>
    let built := Ring.create setup.kind capacity
    s.placeBuilt setup.kind name (built.map fun ring => (ring, none)) .done
  | .queue (.filled capacity value) =>
    let built := Ring.filled setup.kind capacity value
    s.placeBuilt setup.kind name (built.map fun ring => (ring, none)) .done
  | .policyQueue (.ofCapacity capacity policy) =>
    let built := PolicyQueue.create setup.kind capacity (setup.policy policy)
    s.placeBuilt setup.kind name (built.map fun queue => (queue.ring, some queue.policy))
      (.configured (.ok ()))
  | .policyQueue (.ofConfig config) =>
    match PolicyQueue.ofConfig setup.kind config with
    | .error e => s.answer (.configured (.error e))
    | .ok built =>
      s.placeBuilt setup.kind name (built.map fun queue => (queue.ring, some queue.policy))
        (.configured (.ok ()))

/-- Splits a queue into a producer and a consumer. When both get the same name, it goes from the
producer to the consumer at once. -/
def split (setup : Setup α) (s : Session α) (name producer consumer : String) (c : Channel α) :
    Reply α (Result α) :=
  let handles :=
    if producer = consumer then [Handle.named consumer .consumer]
    else [Handle.named producer .producer, Handle.named consumer .consumer]
  s.place setup.kind (removeChannel (.name name) s.channels) { c with handles } [] .done

def drop (setup : Setup α) (s : Session α) (name : String) : Reply α (Result α) :=
  let dropped := dropHandle setup.kind (.name name) s.channels
  ⟨s.after dropped.channels dropped.effects, resultOf dropped.fault .done, dropped.effects⟩

/-- A second producer of the same ring. An old handle of the new name loses it, also one of the same
ring. -/
def cloneProducer (setup : Setup α) (s : Session α) (name new : String) (c : Channel α) :
    Reply α (Result α) :=
  -- The ring has the new handle before an old one goes, so it is not released here.
  let others := removeChannel (.name name) s.channels
  let channel := { c with handles := c.without (.name new) ++ [.named new .producer] }
  let dropped := dropHandle setup.kind (.name new) others
  ⟨s.after (dropped.channels ++ [channel]) dropped.effects, resultOf dropped.fault .done,
    dropped.effects⟩

/-- A second queue with clones of the unread entries. -/
def cloneQueue (setup : Setup α) (s : Session α) (name new : String) (c : Channel α) :
    Reply α (Result α) :=
  let made := c.ring.duplicate setup.kind
  let channels := setRing (.name name) made.ring s.channels
  match made.outcome with
  | .returned ring =>
    s.place setup.kind channels ⟨ring, c.policy, [.named new .owner]⟩ made.effects .done
  | .aborted fault => ⟨s.after channels made.effects, .aborted fault, made.effects⟩
  | .waiting => ⟨s.after channels made.effects, .waiting, made.effects⟩

/-- A thread pushes values, waiting for room, while the caller pops, waiting for entries. The
consumer may be that of another queue; then neither waits for the other. -/
def pushFromThread (s : Session α) (name consumer : String) (values : List α) (pops : Nat)
    (c : Channel α) : Reply α (Result α) :=
  match s.find? (.name consumer) with
  | some (source, ⟨_, .consumer, _⟩) =>
    let present (popped : List α) : Result α :=
      if source.policy.isSome then .readList (popped.map .ok) else .popList (popped.map some)
    if c.isReached (.name consumer) then
      match Protocol.handOver c.ring values pops with
      | some (popped, ring) =>
        ⟨s.after (setRing (.name name) ring s.channels) [], present popped, []⟩
      | none => s.answer .waiting
    else
      match Protocol.handOver c.ring values 0, Protocol.handOver source.ring [] pops with
      | some (_, filled), some (popped, drained) =>
        let channels := setRing (.name consumer) drained (setRing (.name name) filled s.channels)
        ⟨s.after channels [], present popped, []⟩
      | _, _ => s.answer .waiting
  | _ => s.answer .unavailable

/-- An exclusive operation, which a handle offers only while no other is there. -/
def exclusive (setup : Setup α) (s : Session α) (name : String) (operation : Exclusive α)
    (c : Channel α) : Reply α (Result α) :=
  if c.isSole then
    s.call (.name name) (operation.apply setup.kind c.ring) fun x => .exclusive (some x)
  else s.answer (.exclusive none)

/-- An action of a handle that offers it. -/
def useHandle (setup : Setup α) (s : Session α) (name : String) (c : Channel α) (role : Role) :
    Action α → Reply α (Result α)
  | .split producer consumer => split setup s name producer consumer c
  | .drop => drop setup s name
  | .observe => s.answer .nothing
  | .describe onLines => s.answer (.text ((c.record role).describe onLines))
  | .push (.asked policy) value =>
    s.call (.name name) (c.ring.push policy value) (showPush policy value)
  | .push .configured value =>
    s.call (.name name) (c.ring.pushUnder setup.kind c.overflowPolicy value) .pushed
  | .pushWithin timeout value =>
    s.call (.name name) (c.ring.pushBackWithin setup.clock timeout value) .tried
  | .pushFromThread consumer values pops => pushFromThread s name consumer values pops c
  | .clone new =>
    if role = .producer then cloneProducer setup s name new c else cloneQueue setup s name new c
  | .popFront => s.call (.name name) c.ring.popFront .entry
  | .popWithin timeout => s.call (.name name) (c.ring.popFrontWithin setup.clock timeout) .entry
  | .read => s.call (.name name) c.ring.read? .read
  | .readWithin timeout =>
    s.call (.name name) (c.ring.popFrontWithin setup.clock timeout) fun a => .read (Ring.reading a)
  | .front =>
    if role = .owner then s.answer (.entry c.ring.front?)
    else s.call (.name name) (c.ring.peekClone setup.kind.cloning) .entry
  | .drain limit => s.call (.name name) (c.ring.drain limit) .entries
  | .reserve capacity => s.call (.name name) (c.ring.reserve setup.kind capacity) fun _ => .done
  | .clear => s.call (.name name) (c.ring.clear setup.kind) fun _ => .done
  | .blocks => s.answer (.blocks s.blocks)
  | .policy =>
    match c.policy with
    | some policy => s.answer (.policy policy)
    | none => s.answer .unavailable
  | .exclusive operation => exclusive setup s name operation c

/-- An action of the handle of a name. A name without a handle can still be looked at. -/
def perform (setup : Setup α) (s : Session α) (name : String) (action : Action α) :
    Reply α (Result α) :=
  match s.find? (.name name), action with
  | none, .observe => s.answer .nothing
  | none, _ => s.answer .unavailable
  | some (c, h), action =>
    if !action.isOffered h.role c.policy.isSome then s.answer .unavailable
    else if action.needsAll && !h.keptBy.isEmpty then s.answer .unavailable
    else useHandle setup s name c h.role action

/-! ## Pushes with a constructor -/

/-- What becomes of a push before its constructor runs: room was granted, and the push keeps its
handle under a number, or the push has ended. -/
inductive Begun (α : Type) where
  | ended (result : Result α)
  | granted (number : Nat) (policy : OverflowPolicy) (evicted : Option α)

/-- Asks for room for an entry that is yet to be made. -/
def beginEmplace (s : Session α) (name : String) (terms : Terms) : Reply α (Begun α) :=
  match s.find? (.name name) with
  | none => s.answer (.ended .unavailable)
  | some (c, h) =>
    let policy :=
      match terms with
      | .asked policy => policy
      | .configured => c.overflowPolicy
    -- Consumers do not push, and only queues with a policy push by it.
    if h.role = .consumer ∨ c.policy.isSome ≠ (terms = .configured) then
      s.answer (.ended .unavailable)
    else
      let made := c.ring.request policy
      let reached := s.after (setRing (.name name) made.ring s.channels) made.effects
      let ended (result : Result α) : Reply α (Begun α) := ⟨reached, .ended result, made.effects⟩
      match made.outcome with
      | .returned (.granted evicted) =>
        let keeping := reached.channels.map fun c =>
          if c.isReached (.name name) then c.keeping (.name name) s.pushes else c
        ⟨{ reached with channels := keeping, pushes := s.pushes + 1 },
          .granted s.pushes policy evicted, made.effects⟩
      | .returned .denied =>
        match terms with
        | .asked _ => ended (.constructed false)
        | .configured => ended (.pushed (.error .queueIsFull))
      | .aborted fault => ended (.aborted fault)
      | .waiting => ended .waiting

/-- Publishes the entry that the constructor made, or gives its room back. Then the push no longer
keeps its handle, which is given up if its name is gone. -/
def endEmplace (setup : Setup α) (s : Session α) (number : Nat) (terms : Terms)
    (policy : OverflowPolicy) (evicted : Option α) (made : Except Fault α) : Reply α (Result α) :=
  match s.find? (.push number) with
  | none => s.answer .unavailable
  | some (c, _) =>
    let settled := c.ring.settle evicted made
    let pushed :=
      match terms with
      | .asked _ => s.call (.push number) settled (showEmplace policy)
      | .configured => s.call (.push number) (settled.andThen (Ring.report setup.kind none)) .pushed
    let dropped := dropHandle setup.kind (.push number) pushed.session.channels
    let left := pushed.session.after dropped.channels dropped.effects
    ⟨{ left with pushes := number }, resultOf dropped.fault pushed.result,
      pushed.effects ++ dropped.effects⟩

end RingQueue.Session
