import RingQueue.Proofs.Session.Histories

/-!
What operations are expected to report, and how many blocks they are expected to take.

The expectations look at what an operation was asked, at its result, and at the ring before and
after it: entries that are missing after a push were evicted, a ring whose capacity changed has
grown. That calls on a ring meet them is said by `Action.call?_logs`.
-/
namespace RingQueue.Session

variable {α β : Type}

/-! ## Expectations -/

/-- How many entries a push stored, by its result. -/
def Result.stored : Result α → Nat
  | .done => 1
  | .tried (.ok ()) => 1
  | .evicted _ => 1
  | .pushed (.ok ()) => 1
  | .exclusive (some (.tried (.ok ()))) => 1
  | .exclusive (some (.entry _)) => 1
  | _ => 0

/-- Whether an operation has done what it was asked, without any further answer. -/
def Result.isDone : Result α → Bool
  | .done => true
  | .exclusive (some .done) => true
  | _ => false

namespace Action

def isPush : Action α → Bool
  | .push _ _ => true
  | .pushWithin _ _ => true
  | .exclusive (.tryPushBack _) => true
  | .exclusive (.forcePushBack _) => true
  | _ => false

/-- How many entries an action stored. A push by its queue's policy may break off when it drops what
it leaves over; one that overwrites has stored its entry by then. -/
def stored (action : Action α) (c : Channel α) (result : Result α) : Nat :=
  match action, result with
  | .push .configured _, .aborted _ => if c.overflowPolicy = .overwrite then 1 else 0
  | _, _ => result.stored

/-- The number of entries that made way for a push: those that are missing afterwards. -/
def evictions (action : Action α) (c : Channel α) (result : Result α) (after : Ring α) : Nat :=
  if action.isPush then c.ring.unread.length + action.stored c result - after.unread.length else 0

/-- Whether the ring is asked to grow. -/
def isReserve : Action α → Bool
  | .reserve _ => true
  | .exclusive (.reserve _) => true
  | _ => false

def isClear : Action α → Bool
  | .clear => true
  | .exclusive .clear => true
  | _ => false

/-- Whether a second queue comes of the action. -/
def duplicates (k : EntryKind α) (action : Action α) (c : Channel α) (role : Role) : Bool :=
  match action, role, (c.ring.duplicate k).outcome with
  | .clone _, .owner, .returned _ => true
  | _, _, _ => false

/-- Whether a push or pop with a deadline came to nothing, by its result. -/
def timesOut (action : Action α) (result : Result α) : Bool :=
  match action, result with
  | .pushWithin _ _, .tried (.error _) => true
  | .popWithin _, .entry none => true
  | .readWithin _, .read (.error _) => true
  | _, _ => false

/-- What an action on a channel is expected to report, given the ring afterwards. -/
def events (k : EntryKind α) (action : Action α) (c : Channel α) (role : Role) (after : Ring α)
    (result : Result α) : List Event :=
  if result.isRefused then []
  else if action.isClear then [.clearing c.ring.capacity c.ring.unread.length]
  else if action.isReserve then
    if after.capacity = c.ring.capacity then []
    else [.ringGrown c.ring.capacity after.capacity c.ring.unread.length]
  else if action.duplicates k c role then [.ringCreated c.ring.capacity]
  else if action.timesOut result then
    [if action.isPush then .pushTimedOut c.ring.capacity else .popTimedOut c.ring.capacity]
  else List.replicate (action.evictions c result after) (.evicted c.ring.capacity)

end Action

/-- How often something happened for which a block is taken. -/
structure Counts where
  -- Rings that were built.
  built : Nat
  -- Rings that were to be filled, but a clone failed.
  spoiled : Nat
  grown : Nat
  cleared : Nat

namespace Counts

instance : Zero Counts := ⟨⟨0, 0, 0, 0⟩⟩

instance : Add Counts :=
  ⟨fun a b => ⟨a.built + b.built, a.spoiled + b.spoiled, a.grown + b.grown, a.cleared + b.cleared⟩⟩

def total (c : Counts) : Nat := c.built + c.spoiled + c.grown + c.cleared

@[simp] theorem total_zero : (0 : Counts).total = 0 := rfl

@[simp] theorem total_add (a b : Counts) : (a + b).total = a.total + b.total := by
  change (_ + _) + (_ + _) + (_ + _) + (_ + _) = _
  simp only [total]
  omega

end Counts

def Action.counts (k : EntryKind α) (action : Action α) (c : Channel α) (role : Role)
    (after : Ring α) (result : Result α) : Counts :=
  if result.isRefused then 0
  else
    { built := if action.duplicates k c role then 1 else 0
      spoiled := 0
      grown := if action.isReserve && after.capacity ≠ c.ring.capacity then 1 else 0
      cleared := if action.isClear && result.isDone then 1 else 0 }

def Creation.counts (setup : Setup α) (creation : Creation α) : Counts :=
  match creation.build setup with
  | .ok ⟨.ok _, _⟩ => ⟨1, 0, 0, 0⟩
  -- Slots that are turned down leave nothing to clean up.
  | .ok ⟨.error _, _⟩ =>
    if setup.kind.checkSlots creation.capacity = .ok () then ⟨0, 1, 0, 0⟩ else 0
  | .error _ => 0

def Creation.events (setup : Setup α) (creation : Creation α) : List Event :=
  match creation.build setup with
  | .ok ⟨.ok _, _⟩ => creation.announcement
  | .ok ⟨.error _, _⟩ => creation.configuration
  | .error _ => []

/-- The ring behind a key, or another one if there is none. -/
def ringBehind (s : Session α) (key : Key) (other : Ring α) : Ring α :=
  ((s.find? key).map fun found => found.1.ring).getD other

namespace Deed

/-- The channel and the handle of an operation under a name. -/
def place (d : Deed α) : Option (Channel α × Handle) :=
  match d.operation with
  | .act name _ => d.before.find? (.name name)
  | .enter name _ => d.before.find? (.name name)
  | _ => none

/-- The ring of an operation under a name once it is over. -/
def after (d : Deed α) (before : Ring α) : Ring α :=
  match d.operation with
  | .act name _ => d.reply.session.ringBehind (.name name) before
  | .enter name _ => d.reply.session.ringBehind (.name name) before
  | _ => before

/-- How many entries made way for others. A push that enters has not stored anything yet. -/
def evictions (d : Deed α) : Nat :=
  match d.operation, d.reply.result, d.place with
  | .act _ action, .ended result, some (c, _) => action.evictions c result (d.after c.ring)
  | .enter _ _, _, some (c, _) => c.ring.unread.length - (d.after c.ring).unread.length
  | _, _, _ => 0

/-- What an operation is expected to report. -/
def events (setup : Setup α) (d : Deed α) : List Event :=
  match d.operation, d.reply.result, d.place with
  | .create _ creation, _, _ => creation.events setup
  | .act _ action, .ended result, some (c, h) =>
    action.events setup.kind c h.role (d.after c.ring) result
  | .enter _ _, _, some (c, _) => List.replicate d.evictions (.evicted c.ring.capacity)
  | _, _, _ => []

/-- How often an operation is expected to take a block, and why. -/
def counts (setup : Setup α) (d : Deed α) : Counts :=
  match d.operation, d.reply.result, d.place with
  | .create _ creation, _, _ => creation.counts setup
  | .act _ action, .ended result, some (c, h) =>
    action.counts setup.kind c h.role (d.after c.ring) result
  | _, _, _ => 0

end Deed

/-! ## Calls -/

/-- What a call on the ring of a channel logs is what is expected of the action. -/
structure Action.Meets (k : EntryKind α) (action : Action α) (c : Channel α) (role : Role)
    (made : Call α (Result α)) : Prop where
  turn : c.ring.Turn k made.effects made.ring (action.evictions c (resultOfCall made) made.ring)
  events : Effect.events made.effects = action.events k c role made.ring (resultOfCall made)
  blocks : k.zeroSized = false → (Effect.allocations made.effects).length =
    (action.counts k c role made.ring (resultOfCall made)).total

/-- Actions that neither clear nor enlarge a ring nor make a new one take no block. -/
structure Action.IsPlain (k : EntryKind α) (action : Action α) (c : Channel α)
    (role : Role) : Prop where
  clears : action.isClear = false
  reserves : action.isReserve = false
  duplicates : action.duplicates k c role = false

section Presented

variable (made : Call α β) (present : β → Result α)

theorem resultOfCall_isRefused (accepted : ∀ value, (present value).isRefused = false) :
    (resultOfCall (made.map present)).isRefused = false := by
  obtain ⟨outcome, ring, effects⟩ := made
  cases outcome with
  | returned value => exact accepted value
  | aborted fault => rfl
  | waiting => rfl

theorem resultOfCall_stored :
    (resultOfCall (made.map present)).stored = made.stores fun value => (present value).stored := by
  obtain ⟨outcome, ring, effects⟩ := made
  cases outcome <;> rfl

theorem resultOfCall_isDone (done : ∀ value, (present value).isDone = true) :
    (resultOfCall (made.map present)).isDone =
      match made.outcome with
      | .returned _ => true
      | _ => false := by
  obtain ⟨outcome, ring, effects⟩ := made
  cases outcome with
  | returned value => exact done value
  | aborted fault => rfl
  | waiting => rfl

theorem stored_pushUnder {k : EntryKind α} {c : Channel α} {policy : OverflowPolicy} {value : α}
    (own : policy = c.overflowPolicy) (r : Ring α) :
    Action.stored (.push .configured value) c
      (resultOfCall ((r.pushUnder k policy value).map .pushed)) =
      Ring.storesUnder policy (r.pushUnder k policy value).outcome := by
  generalize r.pushUnder k policy value = made
  subst own
  obtain ⟨outcome, ring, effects⟩ := made
  rcases outcome with (_ | _) | _ | _ <;> rfl

/-- What an action reports whose results are presented as another one presents them. -/
theorem resultOfCall_timesOut {action : Action α}
    (broken : ∀ fault, action.timesOut (.aborted fault) = false)
    (waits : action.timesOut .waiting = false) :
    action.timesOut (resultOfCall (made.map present)) =
      match made.outcome with
      | .returned value => action.timesOut (present value)
      | _ => false := by
  obtain ⟨outcome, ring, effects⟩ := made
  cases outcome with
  | returned value => rfl
  | aborted fault => exact broken fault
  | waiting => exact waits

end Presented

namespace Action

variable {k : EntryKind α} {c : Channel α} {role : Role} {action : Action α}

theorem IsPlain.counts (plain : action.IsPlain k c role) (after : Ring α) (result : Result α) :
    (action.counts k c role after result).total = 0 := by
  rw [Action.counts]
  split
  · rfl
  · simp [plain.clears, plain.reserves, plain.duplicates, Counts.total]

theorem IsPlain.events (plain : action.IsPlain k c role) {after : Ring α} {result : Result α}
    (accepted : result.isRefused = false) :
    action.events k c role after result =
      if action.timesOut result then
        [if action.isPush then .pushTimedOut c.ring.capacity else .popTimedOut c.ring.capacity]
      else List.replicate (action.evictions c result after) (.evicted c.ring.capacity) := by
  simp [Action.events, accepted, plain.clears, plain.reserves, plain.duplicates]

/-- A push that evicts what is missing after it. -/
theorem Meets.push {made : Call α β} {present : β → Result α} {n : Nat}
    (evicts : made.Evicts k c.ring (action.stored c (resultOfCall (made.map present))) n)
    (plain : action.IsPlain k c role) (pushes : action.isPush = true)
    (accepted : ∀ value, (present value).isRefused = false)
    (timely : ∀ result, action.timesOut result = false) :
    action.Meets k c role (made.map present) := by
  have count : action.evictions c (resultOfCall (made.map present)) made.ring = n := by
    have missing := evicts.missing
    rw [evictions, if_pos pushes]
    omega
  refine ⟨?_, ?_, fun _ => ?_⟩
  · rw [show (made.map present).ring = made.ring from rfl, count]
    exact evicts.logs.turn
  · rw [plain.events (resultOfCall_isRefused made present accepted), timely,
      show (made.map present).ring = made.ring from rfl, count]
    exact evicts.logs.events
  · rw [plain.counts]
    exact congrArg List.length evicts.logs.blocks

/-- An action that evicts nothing reports at most that it gave up. -/
theorem Meets.timed {made : Call α β} {present : β → Result α} {events : List Event}
    (logs : c.ring.Logs k made.effects made.ring 0 events []) (plain : action.IsPlain k c role)
    (none_evicted : action.evictions c (resultOfCall (made.map present)) made.ring = 0)
    (accepted : ∀ value, (present value).isRefused = false)
    (report : events = if action.timesOut (resultOfCall (made.map present)) then
      [if action.isPush then .pushTimedOut c.ring.capacity else .popTimedOut c.ring.capacity] else
        []) :
    action.Meets k c role (made.map present) := by
  refine ⟨?_, ?_, fun _ => ?_⟩
  · rw [show (made.map present).ring = made.ring from rfl, none_evicted]
    exact logs.turn
  · rw [plain.events (resultOfCall_isRefused made present accepted),
      show (made.map present).ring = made.ring from rfl, none_evicted]
    exact logs.events.trans report
  · rw [plain.counts]
    exact congrArg List.length logs.blocks

/-- An action that is no push and has no deadline reports nothing. -/
theorem Meets.quiet {made : Call α β} {present : β → Result α}
    (logs : c.ring.Logs k made.effects made.ring 0 [] []) (plain : action.IsPlain k c role)
    (pops : action.isPush = false) (accepted : ∀ value, (present value).isRefused = false)
    (timely : ∀ result, action.timesOut result = false) :
    action.Meets k c role (made.map present) :=
  .timed logs plain (by simp [evictions, pops]) accepted (by simp [timely])

/-- A ring that is asked to grow. -/
theorem Meets.reserve {entries : List α} {limit : Nat} (h : c.ring.Holds limit entries 0)
    (capacity : Nat) {present : Unit → Result α} (reserves : action.isReserve = true)
    (accepted : ∀ value, (present value).isRefused = false) (clears : action.isClear = false)
    (pops : action.isPush = false) (duplicates : action.duplicates k c role = false) :
    action.Meets k c role ((c.ring.reserve k capacity).map present) := by
  have logs := h.reserve_logs k capacity
  have accepted := resultOfCall_isRefused (c.ring.reserve k capacity) present accepted
  refine ⟨?_, ?_, fun sized => ?_⟩
  · rw [evictions, pops]
    exact logs.turn
  · simp only [Action.events, accepted, clears, reserves, Bool.false_eq_true, if_false, if_true]
    exact logs.events
  · have blocks := congrArg List.length logs.blocks
    simp only [Action.counts, accepted, duplicates, clears, reserves, Counts.total]
    refine blocks.trans ?_
    change _ = 0 + 0 + (if _ then 1 else 0) + 0
    split <;> simp_all [EntryKind.blocksFor, Call.map]

/-- A ring that is to be cleared. -/
theorem Meets.clear {entries : List α} {limit : Nat} (h : c.ring.Holds limit entries 0)
    {present : Unit → Result α} (clears : action.isClear = true)
    (accepted : ∀ value, (present value).isRefused = false)
    (done : ∀ value, (present value).isDone = true) (pops : action.isPush = false)
    (reserves : action.isReserve = false) (duplicates : action.duplicates k c role = false) :
    action.Meets k c role ((c.ring.clear k).map present) := by
  have logs := h.clear_logs k
  have accepted := resultOfCall_isRefused (c.ring.clear k) present accepted
  refine ⟨?_, ?_, fun sized => ?_⟩
  · rw [evictions, pops]
    exact logs.turn
  · simp only [Action.events, accepted, clears, Bool.false_eq_true, if_false, if_true]
    exact logs.events
  · have blocks := congrArg List.length logs.blocks
    simp only [Action.counts, accepted, duplicates, clears, reserves, Counts.total,
      resultOfCall_isDone _ _ done]
    refine blocks.trans ?_
    cases (c.ring.clear k).outcome <;> simp [EntryKind.blocksFor, sized]

/-- A push of a value, however it is presented. -/
theorem Meets.pushing {limit reserved : Nat} {entries : List α}
    (h : c.ring.Holds limit entries reserved) (policy : OverflowPolicy) (value : α)
    (finished : (c.ring.push policy value).outcome ≠ .waiting) {present : Pushed α → Result α}
    (told : ∀ result, action.stored c result = result.stored)
    (denied : policy = .reject → (present .denied).stored = 0)
    (one : ∀ evicted, (present (.stored evicted)).stored = 1) (plain : action.IsPlain k c role)
    (pushes : action.isPush = true) (accepted : ∀ pushed, (present pushed).isRefused = false)
    (timely : ∀ result, action.timesOut result = false) :
    action.Meets k c role ((c.ring.push policy value).map present) := by
  obtain ⟨n, evicts⟩ := h.push_evicts k policy value finished
    (fun pushed => (present pushed).stored) denied one
  rw [← resultOfCall_stored, ← told] at evicts
  exact .push evicts plain pushes accepted timely

/-- A push, in the words in which it was asked for. -/
theorem Meets.pushed {setup : Setup α} {limit reserved : Nat} {entries : List α}
    (h : c.ring.Holds limit entries reserved) (value : α) (terms : Terms) {made : Call α (Result α)}
    (call : Action.call? setup c role (.push terms value) = some made)
    (finished : made.outcome ≠ .waiting) :
    Action.Meets setup.kind (.push terms value) c role made := by
  cases terms with
  | asked policy =>
    cases call
    refine .pushing h policy value (outcome_map_ne_waiting finished) (fun _ => rfl) (fun _ => rfl)
      (fun _ => by cases policy <;> rfl) ⟨rfl, rfl, rfl⟩ rfl ?_ fun _ => rfl
    rintro (_ | evicted)
    · rfl
    · cases policy <;> rfl
  | configured =>
    cases call
    obtain ⟨n, evicts⟩ := h.pushUnder_evicts setup.kind c.overflowPolicy value
      (outcome_map_ne_waiting finished)
    refine .push (n := n) ?_ ⟨rfl, rfl, rfl⟩ rfl (fun _ => rfl) fun _ => rfl
    rwa [stored_pushUnder rfl]

/-- An operation of a caller whom no other handle disturbs. -/
theorem Meets.exclusive {limit : Nat} {entries : List α} (h : c.ring.Holds limit entries 0)
    (operation : Exclusive α) (finished : (operation.apply k c.ring).outcome ≠ .waiting) :
    Action.Meets k (.exclusive operation) c role
      ((operation.apply k c.ring).map fun x => .exclusive (some x)) := by
  cases operation with
  | reserve capacity =>
    rw [Exclusive.apply, Call.map_map]
    exact .reserve h capacity rfl (fun _ => rfl) rfl rfl rfl
  | clear =>
    rw [Exclusive.apply, Call.map_map]
    exact .clear h rfl (fun _ => rfl) (fun _ => rfl) rfl rfl rfl
  | popFront =>
    rw [Exclusive.apply, Call.map_map]
    exact .quiet (h.popFront_logs k) ⟨rfl, rfl, rfl⟩ rfl (fun _ => rfl) fun _ => rfl
  | front => exact .quiet (.silent rfl) ⟨rfl, rfl, rfl⟩ rfl (fun _ => rfl) fun _ => rfl
  | tryPushBack value =>
    rw [Exclusive.apply, Ring.tryPushBack, Call.map_map, Call.map_map]
    exact .pushing h .reject value (outcome_map_ne_waiting (outcome_map_ne_waiting finished))
      (fun _ => rfl) (fun _ => rfl) (fun _ => rfl) ⟨rfl, rfl, rfl⟩ rfl (fun _ => rfl) fun _ => rfl
  | forcePushBack value =>
    rw [Exclusive.apply, Ring.forcePushBack, Call.map_map, Call.map_map]
    exact .pushing h .overwrite value (outcome_map_ne_waiting (outcome_map_ne_waiting finished))
      (fun _ => rfl) (by rintro ⟨⟩) (fun _ => rfl) ⟨rfl, rfl, rfl⟩ rfl (fun _ => rfl) fun _ => rfl

/-- What the call of an action logs is what is expected of it. A caller whom others could disturb
does not rebuild the ring. -/
theorem call?_meets {setup : Setup α} {limit reserved : Nat} {entries : List α}
    (h : c.ring.Holds limit entries reserved) (alone : action.needsAll = true → reserved = 0)
    {made : Call α (Result α)} (call : action.call? setup c role = some made)
    (finished : made.outcome ≠ .waiting) :
    action.Meets setup.kind c role made := by
  cases action with
  | push terms value => exact .pushed h value terms call finished
  | pushWithin timeout value =>
    cases call
    obtain ⟨events, logs, missing, report⟩ := h.pushBackWithin_evicts setup.kind setup.clock
      timeout value
      (fun result => (Result.tried result : Result α).stored) rfl rfl
    refine .timed logs ⟨rfl, rfl, rfl⟩ ?_ (fun _ => rfl) ?_
    · simp only [evictions, isPush, if_true, stored, resultOfCall_stored]
      omega
    · rw [resultOfCall_timesOut _ _ (fun _ => rfl) rfl, report]
      rcases (c.ring.pushBackWithin setup.clock timeout value).outcome with (_ | _) | _ | _ <;> rfl
  | popFront =>
    cases call
    exact .quiet (h.popFront_logs setup.kind) ⟨rfl, rfl, rfl⟩ rfl (fun _ => rfl) fun _ => rfl
  | popWithin timeout =>
    cases call
    refine .timed (h.popFrontWithin_logs setup.kind setup.clock timeout) ⟨rfl, rfl, rfl⟩ rfl
      (fun _ => rfl) ?_
    rw [resultOfCall_timesOut _ _ (fun _ => rfl) rfl]
    rcases (c.ring.popFrontWithin setup.clock timeout).outcome with (_ | _) | _ | _ <;> rfl
  | read =>
    cases call
    rw [Ring.read?, Call.map_map]
    exact .quiet (h.popFront_logs setup.kind) ⟨rfl, rfl, rfl⟩ rfl (fun _ => rfl) fun _ => rfl
  | readWithin timeout =>
    cases call
    refine .timed (h.popFrontWithin_logs setup.kind setup.clock timeout) ⟨rfl, rfl, rfl⟩ rfl
      (fun _ => rfl) ?_
    rw [resultOfCall_timesOut _ _ (fun _ => rfl) rfl]
    rcases (c.ring.popFrontWithin setup.clock timeout).outcome with (_ | _) | _ | _ <;> rfl
  | front =>
    simp only [Action.call?] at call
    split at call
    · cases call
    · cases call
      exact .quiet (h.peekClone_logs setup.kind) ⟨rfl, rfl, rfl⟩ rfl (fun _ => rfl) fun _ => rfl
  | drain limit =>
    cases call
    exact .quiet (h.drain_logs setup.kind limit) ⟨rfl, rfl, rfl⟩ rfl (fun _ => rfl) fun _ => rfl
  | reserve capacity =>
    cases call
    obtain rfl := alone rfl
    exact .reserve h capacity rfl (fun _ => rfl) rfl rfl rfl
  | clear =>
    cases call
    obtain rfl := alone rfl
    exact .clear h rfl (fun _ => rfl) (fun _ => rfl) rfl rfl rfl
  | exclusive operation =>
    simp only [Action.call?] at call
    split at call
    · cases call
      obtain rfl := alone rfl
      exact .exclusive h operation (outcome_map_ne_waiting finished)
    · cases call
  | _ => cases call

end Action

end RingQueue.Session
