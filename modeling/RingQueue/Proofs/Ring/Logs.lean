import RingQueue.Proofs.Ring.Conservation

/-!
What calls log about a ring: the blocks that come and go, and the events.

`Ring.Turn` lists the ways in which a call can treat a ring, each with its log and with the number
of entries that it evicts, and `Ring.Birth` those in which a ring comes to be. Each kind of call has
one lemma (`Ring.Logs`) that says which way it goes.
-/
namespace RingQueue

variable {α β γ : Type}

theorem Call.map_map {δ : Type} (made : Call α β) (f : β → γ) (g : γ → δ) :
    (made.map f).map g = made.map fun value => g (f value) := by
  obtain ⟨outcome, ring, effects⟩ := made
  cases outcome <;> rfl

/-! ## Views of a log -/

namespace Effect

@[simp] theorem events_reported (event : Event) (log : List (Effect α)) :
    events (.reported event :: log) = event :: events log := rfl

@[simp] theorem events_dropped (entries : Batch α) (log : List (Effect α)) :
    events (.dropped entries :: log) = events log := rfl

@[simp] theorem events_cloned (copies : Batch α) (log : List (Effect α)) :
    events (.cloned copies :: log) = events log := rfl

@[simp] theorem allocations_reported (event : Event) (log : List (Effect α)) :
    allocations (.reported event :: log) = allocations log := rfl

@[simp] theorem allocations_dropped (entries : Batch α) (log : List (Effect α)) :
    allocations (.dropped entries :: log) = allocations log := rfl

@[simp] theorem allocations_cloned (copies : Batch α) (log : List (Effect α)) :
    allocations (.cloned copies :: log) = allocations log := rfl

@[simp] theorem events_nil : events ([] : List (Effect α)) = [] := rfl

@[simp] theorem allocations_nil : allocations ([] : List (Effect α)) = [] := rfl

/-- The log tells of clones and drops only. -/
structure IsPlain (log : List (Effect α)) : Prop where
  events : events log = []
  allocations : allocations log = []
  releases : releases log = []

theorem IsPlain.nil : IsPlain ([] : List (Effect α)) := ⟨rfl, rfl, rfl⟩

theorem IsPlain.drop? (a : Option α) : IsPlain (drop? a) := by
  cases a <;> exact ⟨rfl, rfl, rfl⟩

end Effect

section Blocks

variable (k : EntryKind α) (capacity : Nat)

@[simp] theorem EntryKind.events_allocate : Effect.events (k.allocate capacity) = [] := by
  unfold allocate
  split <;> rfl

@[simp] theorem EntryKind.events_free : Effect.events (k.free capacity) = [] := by
  unfold free
  split <;> rfl

/-- The blocks for a ring with so many slots: one, unless entries have no content. -/
def EntryKind.blocksFor : List Nat := if k.zeroSized then [] else [capacity]

@[simp] theorem EntryKind.allocations_allocate :
    Effect.allocations (k.allocate capacity) = k.blocksFor capacity := by
  unfold allocate blocksFor
  split <;> rfl

@[simp] theorem EntryKind.allocations_free : Effect.allocations (k.free capacity) = [] := by
  unfold free
  split <;> rfl

end Blocks

/-! ## Turns and births -/

namespace Ring

/-- How a call can treat a ring: what it logs, the ring afterwards, and how many entries it evicts.
-/
inductive Turn (k : EntryKind α) (r : Ring α) : List (Effect α) → Ring α → Nat → Prop where
  | quiet {r' : Ring α} {log : List (Effect α)} (same : r'.capacity = r.capacity)
      (plain : Effect.IsPlain log) : Turn k r log r' 0
  | evicting {r' : Ring α} {log : List (Effect α)} (same : r'.capacity = r.capacity)
      (plain : Effect.IsPlain log) : Turn k r (.reported (.evicted r.capacity) :: log) r' 1
  | timedOut {event : Event}
      (kind : event = .pushTimedOut r.capacity ∨ event = .popTimedOut r.capacity) :
      Turn k r [.reported event] r 0
  | grown {r' : Ring α} {capacity : Nat} (larger : r.capacity < capacity)
      (same : r'.capacity = capacity) :
      Turn k r (k.allocate capacity ++ k.free r.capacity ++
        [.reported (.ringGrown r.capacity capacity r.unreadCount)]) r' 0
  | cleared {r' : Ring α} (same : r'.capacity = r.capacity) (entries : Batch α) :
      Turn k r ([.reported (.clearing r.capacity r.unreadCount), .dropped entries] ++
        k.allocate r.capacity ++ k.free r.capacity) r' 0
  -- An entry broke off while it was dropped.
  | notCleared (entries : Batch α) :
      Turn k r [.reported (.clearing r.capacity r.unreadCount), .dropped entries] r 0

/-- What is logged when a ring with so many slots is built. -/
inductive Birth (k : EntryKind α) (capacity : Nat) : List (Effect α) → Prop where
  | empty : Birth k capacity (k.allocate capacity ++ [.reported (.ringCreated capacity)])
  | configured (policy : OverflowPolicy) :
      Birth k capacity (.reported (.queueConfigured capacity policy) ::
        (k.allocate capacity ++ [.reported (.ringCreated capacity)]))
  | filled (copies : Batch α) : Birth k capacity (k.allocate capacity ++ [.cloned copies])
  | copied (copies : Batch α) :
      Birth k capacity ([.cloned copies] ++ k.allocate capacity ++
        [.reported (.ringCreated capacity)])

theorem Birth.blocks {k : EntryKind α} {capacity : Nat} {log : List (Effect α)}
    (birth : Birth k capacity log) : Effect.allocations log = k.blocksFor capacity := by
  cases birth <;> simp

/-- What is logged when a ring cannot be built: nothing of interest, settings that are valid, or a
block that is given back. -/
inductive Stillbirth (k : EntryKind α) : List (Effect α) → Prop where
  | plain {log : List (Effect α)} (plain : Effect.IsPlain log) : Stillbirth k log
  | configured (capacity : Nat) (policy : OverflowPolicy) :
      Stillbirth k [.reported (.queueConfigured capacity policy)]
  | filling (capacity : Nat) (copies : Batch α) (a : α) :
      Stillbirth k (k.allocate capacity ++ [.cloned copies] ++ k.free capacity ++
        [.dropped (.single a)])

/-- The turn of a call, with the events that it reports and the blocks that it takes. -/
structure Logs (k : EntryKind α) (r : Ring α) (log : List (Effect α)) (r' : Ring α)
    (evictions : Nat) (events : List Event) (blocks : List Nat) : Prop where
  turn : r.Turn k log r' evictions
  events : Effect.events log = events
  blocks : Effect.allocations log = blocks

namespace Logs

variable {k : EntryKind α} {r r' : Ring α} {log : List (Effect α)}

theorem quiet (same : r'.capacity = r.capacity) (plain : Effect.IsPlain log) :
    r.Logs k log r' 0 [] [] :=
  ⟨.quiet same plain, plain.events, plain.allocations⟩

theorem silent (same : r'.capacity = r.capacity) : r.Logs k [] r' 0 [] [] := .quiet same .nil

theorem evicting (same : r'.capacity = r.capacity) (plain : Effect.IsPlain log) :
    r.Logs k (.reported (.evicted r.capacity) :: log) r' 1 [.evicted r.capacity] [] :=
  ⟨.evicting same plain, by rw [Effect.events_reported, plain.events],
    by rw [Effect.allocations_reported, plain.allocations]⟩

theorem timedOut {event : Event}
    (kind : event = .pushTimedOut r.capacity ∨ event = .popTimedOut r.capacity) :
    r.Logs k [.reported event] r 0 [event] [] :=
  ⟨.timedOut kind, rfl, rfl⟩

end Logs

end Ring

/-! ## Pushes -/

/-- How many entries a call stores, by its result. -/
def Call.stores (stored : β → Nat) (made : Call α β) : Nat :=
  match made.outcome with
  | .returned value => stored value
  | _ => 0

/-- Those entries were evicted that are missing after the push. -/
structure Call.Evicts (made : Call α β) (k : EntryKind α) (r : Ring α)
    (stored evictions : Nat) : Prop where
  logs : r.Logs k made.effects made.ring evictions (List.replicate evictions (.evicted r.capacity))
    []
  missing : r.unread.length + stored = made.ring.unread.length + evictions

/-- A request for room stores nothing itself. -/
theorem Ring.Requested.evicts {r : Ring α} {c reserved : Nat} {entries : List α}
    {policy : OverflowPolicy} {made : Call α (Room α)}
    (requested : r.Requested c entries reserved policy made) (h : r.Holds c entries reserved)
    (finished : made.outcome ≠ .waiting) (k : EntryKind α) :
    ∃ evictions, made.Evicts k r 0 evictions := by
  have contents := h.unread
  obtain rfl := h.capacity
  cases requested with
  | room room holds =>
    exact ⟨0, .silent holds.capacity, by rw [contents, ← holds.unread]; rfl⟩
  | denied kind full => exact ⟨0, .silent rfl, rfl⟩
  | evicting kind split full holds =>
    refine ⟨1, .evicting holds.capacity .nil, ?_⟩
    rw [contents, split]
    exact congrArg (· + 1) (congrArg List.length holds.unread.symm)
  | waiting => exact absurd rfl finished

/-- How many entries a push under a policy stores. When it breaks off, because an entry breaks off
that it drops, it has stored its own under the one policy that makes room. -/
def Ring.storesUnder (policy : OverflowPolicy) : Outcome (Except QueueError Unit) → Nat
  | .returned (.ok ()) => 1
  | .aborted _ => if policy = .overwrite then 1 else 0
  | _ => 0

namespace Ring.Holds

variable {r : Ring α} {c reserved : Nat} {entries : List α}

theorem push_evicts (h : r.Holds c entries reserved) (k : EntryKind α)
    (policy : OverflowPolicy) (a : α) (finished : (r.push policy a).outcome ≠ .waiting)
    (stored : Pushed α → Nat) (denied : policy = .reject → stored .denied = 0)
    (one : ∀ evicted, stored (.stored evicted) = 1) :
    ∃ evictions, (r.push policy a).Evicts k r ((r.push policy a).stores stored) evictions := by
  have pushing := h.pushing policy a
  have contents := h.unread
  obtain rfl := h.capacity
  generalize r.push policy a = made at pushing finished
  cases pushing with
  | stored room holds =>
    refine ⟨0, .silent holds.capacity, ?_⟩
    simp [Call.stores, Call.returned, one, contents, holds.unread]
  | denied kind full =>
    refine ⟨0, .silent rfl, ?_⟩
    simp only [Call.stores, Call.returned, denied kind]
  | replaced kind split full holds =>
    refine ⟨1, .evicting holds.capacity .nil, ?_⟩
    simp [Call.stores, Call.returned, one, contents, split, holds.unread]
  | waiting => exact absurd rfl finished

theorem pushUnder_evicts (h : r.Holds c entries reserved) (k : EntryKind α)
    (policy : OverflowPolicy) (a : α) (finished : (r.pushUnder k policy a).outcome ≠ .waiting) :
    ∃ evictions, (r.pushUnder k policy a).Evicts k r
      (storesUnder policy (r.pushUnder k policy a).outcome)
      evictions := by
  have pushing := h.pushing policy a
  have contents := h.unread
  obtain rfl := h.capacity
  unfold pushUnder at finished ⊢
  generalize r.push policy a = made at pushing finished
  cases pushing with
  | stored room holds =>
    rw [Call.andThen_returned, report_stored]
    refine ⟨0, .silent holds.capacity, ?_⟩
    simp [Call.after, returnAfterDrop, storesUnder, contents, holds.unread]
  | denied kind full =>
    rw [Call.andThen_returned, report_denied]
    refine ⟨0, .quiet rfl (.drop? (some a)), ?_⟩
    -- Whether the value breaks off or not, nothing has been stored.
    subst kind
    simp only [Call.after, returnAfterDrop]
    split <;> rfl
  | @replaced oldest _ r' kind split full holds =>
    rw [Call.andThen_returned, report_stored]
    refine ⟨1, .evicting holds.capacity (.drop? (some oldest)), ?_⟩
    -- Whether the entry that made way breaks off or not, the new one has been stored.
    subst kind
    have stores : storesUnder .overwrite (r'.returnAfterDrop k (some oldest) (.ok ())).outcome =
      1 := by
      simp only [returnAfterDrop]
      split <;> rfl
    change _ + storesUnder .overwrite (r'.returnAfterDrop k (some oldest) (.ok ())).outcome =
      r'.unread.length + 1
    simp [stores, contents, split, holds.unread]
  | waiting => exact absurd rfl finished

/-- A push gives up in time only when the ring is full, and reports that. -/
theorem pushBackWithin_evicts (h : r.Holds c entries reserved) (k : EntryKind α) (clock : Clock)
    (timeout : Timeout) (a : α) (stored : Except α Unit → Nat) (denied : stored (.error a) = 0)
    (one : stored (.ok ()) = 1) :
    let made := r.pushBackWithin clock timeout a
    ∃ events, r.Logs k made.effects made.ring 0 events [] ∧
      r.unread.length + made.stores stored = made.ring.unread.length ∧
      events = match made.outcome with
        | .returned (.error _) => [.pushTimedOut r.capacity]
        | _ => [] := by
  have contents := h.unread
  obtain rfl := h.capacity
  have pushed := h.pushedWithin clock timeout a
  generalize r.pushBackWithin clock timeout a = made at pushed
  cases pushed with
  | late fault => exact ⟨[], .quiet rfl (.drop? (some a)), rfl, rfl⟩
  | stored holds =>
    refine ⟨[], .silent holds.capacity, ?_, rfl⟩
    simp [Call.stores, Call.returned, one, contents, holds.unread]
  | timedOut full =>
    refine ⟨_, .timedOut (.inl rfl), ?_, rfl⟩
    simp [Call.stores, Call.returned, denied]
  | waiting full => exact ⟨[], .silent rfl, rfl, rfl⟩

/-- The end of a push reports nothing. -/
theorem settle_logs (h : r.Holds c entries (reserved + 1)) (k : EntryKind α) (evicted : Option α)
    (made : Except Fault α) :
    r.Logs k (r.settle evicted made).effects (r.settle evicted made).ring 0 [] [] ∧
      r.Logs k ((r.settle evicted made).andThen (report k none)).effects
        ((r.settle evicted made).andThen (report k none)).ring 0 [] [] := by
  obtain rfl := h.capacity
  cases made with
  | ok a =>
    obtain ⟨r', settled, holds⟩ := h.settle_made evicted a
    rw [settled]
    exact ⟨.silent holds.capacity, .quiet holds.capacity (.drop? evicted)⟩
  | error fault => exact ⟨.quiet rfl (.drop? evicted), .quiet rfl (.drop? evicted)⟩

/-! ## Pops -/

theorem popFront_logs (h : r.Holds c entries reserved) (k : EntryKind α) :
    r.Logs k r.popFront.effects r.popFront.ring 0 [] [] := by
  obtain rfl := h.capacity
  cases entries with
  | nil =>
    rw [h.popFront_nil]
    exact .silent rfl
  | cons a rest =>
    obtain ⟨r', popped, holds⟩ := h.popFront_cons
    rw [popped]
    exact .silent holds.capacity

theorem drain_logs (h : r.Holds c entries reserved) (k : EntryKind α) (limit : Option Nat) :
    r.Logs k (r.drain limit).effects (r.drain limit).ring 0 [] [] := by
  obtain rfl := h.capacity
  obtain ⟨r', drained, holds⟩ := h.drain limit
  rw [drained]
  exact .silent holds.capacity

/-- A pop gives up in time only when the ring is empty, and reports that. -/
theorem popFrontWithin_logs (h : r.Holds c entries reserved) (k : EntryKind α) (clock : Clock)
    (timeout : Timeout) :
    let made := r.popFrontWithin clock timeout
    r.Logs k made.effects made.ring 0
      (match made.outcome with
        | .returned none => [.popTimedOut r.capacity]
        | _ => []) [] := by
  obtain rfl := h.capacity
  have popped := h.poppedWithin clock timeout
  generalize r.popFrontWithin clock timeout = made at popped
  cases popped with
  | late fault => exact .silent rfl
  | popped contents holds => exact .silent holds.capacity
  | timedOut empty => exact .timedOut (.inr rfl)
  | waiting empty => exact .silent rfl

theorem peekClone_logs (h : r.Holds c entries reserved) (k : EntryKind α) :
    r.Logs k (r.peekClone k.cloning).effects (r.peekClone k.cloning).ring 0 [] [] := by
  rw [h.serves.peekClone]
  split
  · exact .silent rfl
  · split
    · exact .quiet rfl ⟨rfl, rfl, rfl⟩
    · exact .silent rfl

/-! ## Whole rings -/

/-- A ring that grows reports it, and takes a block. -/
theorem reserve_logs (h : r.Holds c entries 0) (k : EntryKind α) (capacity : Nat) :
    let made := r.reserve k capacity
    r.Logs k made.effects made.ring 0
      (if made.ring.capacity = r.capacity then []
        else [.ringGrown r.capacity made.ring.capacity r.unread.length])
      (if made.ring.capacity = r.capacity then [] else k.blocksFor made.ring.capacity) := by
  have silent : r.Logs k [] r 0 (if r.capacity = r.capacity then [] else
      [.ringGrown r.capacity r.capacity r.unread.length])
      (if r.capacity = r.capacity then [] else k.blocksFor r.capacity) := by
    simpa using Logs.silent (k := k) (r := r) rfl
  unfold reserve
  split
  · exact silent
  · rename_i larger
    cases k.checkSlots capacity with
    | error fault => exact silent
    | ok _ =>
      have grown : capacity ≠ r.capacity := fun same => larger (Nat.le_of_eq same)
      refine ⟨.grown (Nat.lt_of_not_le larger) rfl, ?_, ?_⟩
      · simp [Call.returned, h.unreadCount, h.unread, ofBatch, grown]
      · simp [Call.returned, ofBatch, grown]

/-- A ring that is cleared says so before anything else. Unless an entry breaks off, it takes a
block. -/
theorem clear_logs (h : r.Holds c entries 0) (k : EntryKind α) :
    let made := r.clear k
    r.Logs k made.effects made.ring 0 [.clearing r.capacity r.unread.length]
      (match made.outcome with
        | .returned () => k.blocksFor r.capacity
        | _ => []) := by
  have count : r.unreadCount = r.unread.length := by rw [h.unreadCount, h.unread]
  unfold clear
  dsimp only
  cases (k.dropAll r.unreadBatch).fault with
  | some fault => exact ⟨.notCleared _, by simp [count], by simp⟩
  | none =>
    have turn : r.Turn k ([.reported (.clearing r.capacity r.unreadCount),
        .dropped (k.dropAll r.unreadBatch).dropped] ++ k.allocate r.capacity ++ k.free r.capacity)
        (empty r.capacity) 0 := .cleared (by rfl) _
    exact ⟨turn, by simp [Call.returned, count], by simp [Call.returned]⟩

/-- A duplicate that is made is born with the capacity of its ring, whose own log says nothing of
it. -/
theorem duplicate_logs (h : r.Holds c entries reserved) (k : EntryKind α) :
    (r.duplicate k).ring = r ∧
      match (r.duplicate k).outcome with
      | .returned copy => copy.capacity = r.capacity ∧ Birth k r.capacity (r.duplicate k).effects ∧
        Effect.events (r.duplicate k).effects = [.ringCreated r.capacity]
      | _ => Effect.IsPlain (r.duplicate k).effects := by
  obtain rfl := h.capacity
  rw [h.duplicate_eq k]
  dsimp only
  cases (k.cloning.cloneAll r.unreadBatch).fault with
  | some fault => exact ⟨rfl, rfl, rfl, rfl⟩
  | none => exact ⟨rfl, rfl, .copied _, by simp [Call.returned]⟩

end Ring.Holds

/-! ## New rings -/

namespace Ring

/-- How building a ring can end: there is no such ring, a clone fails after a block was taken, or
the ring is at rest. What was reported before (`configured`) is reported in all cases. -/
inductive Builds (k : EntryKind α) (capacity : Nat) (configured announced : List Event)
    (ring : β → Ring α) :
    Built α β → Prop where
  | rejected {fault : Fault} {log : List (Effect α)} (bad : k.checkSlots capacity ≠ .ok ())
      (still : Stillbirth k log) (events : Effect.events log = configured)
      (blocks : Effect.allocations log = []) : Builds k capacity configured announced ring
        ⟨.error fault, log⟩
  | aborted {fault : Fault} (good : k.checkSlots capacity = .ok ()) (silent : configured = [])
      (copies : Batch α) (a : α) : Builds k capacity configured announced ring ⟨.error fault,
        k.allocate capacity ++ [.cloned copies] ++ k.free capacity ++ [.dropped (.single a)]⟩
  | built {b : β} {log : List (Effect α)} {entries : List α} (good : k.checkSlots capacity = .ok ())
      (holds : (ring b).Holds capacity entries 0) (birth : Birth k capacity log)
      (events : Effect.events log = announced) : Builds k capacity configured announced
        ring ⟨.ok b, log⟩

theorem Builds.map {k : EntryKind α} {capacity : Nat} {configured announced : List Event}
    {f : β → γ} {ring : γ → Ring α} {built : Built α β}
    (builds : Builds k capacity configured announced (fun b => ring (f b)) built) :
    Builds k capacity configured announced ring (built.map f) := by
  cases builds with
  | rejected bad still events blocks => exact .rejected bad still events blocks
  | aborted good silent copies a => exact .aborted good silent copies a
  | built good holds birth events => exact .built good holds birth events

section New

variable (k : EntryKind α) (capacity : Nat)

theorem create_builds : Builds k capacity [] [.ringCreated capacity] id (create k capacity) := by
  unfold create
  cases accepted : k.checkSlots capacity with
  | error fault => exact .rejected (by simp [accepted]) (.plain .nil) rfl rfl
  | ok _ => exact .built accepted (holds_empty capacity) .empty (by simp)

theorem filled_builds (a : α) : Builds k capacity [] [] id (filled k capacity a) := by
  unfold filled
  cases accepted : k.checkSlots capacity with
  | error fault => exact .rejected (by simp [accepted]) (.plain ⟨rfl, rfl, rfl⟩) rfl rfl
  | ok _ =>
    dsimp only
    cases sound : (k.cloning.cloneAll (.replicate (capacity - 1) a)).fault with
    | some fault => exact .aborted accepted rfl _ a
    | none =>
      obtain ⟨full, count⟩ := k.cloning.cloneAll_all (Batch.full_replicate (capacity - 1) a) sound
      exact .built accepted (holds_ofBatch (fillBatch_full full count a) (Nat.le_refl _))
        (.filled _) (by simp)

end New

end Ring

/-- Settings that are valid are reported, and so is the ring if there is one. -/
theorem PolicyQueue.ofConfig_builds (k : EntryKind α) (config : Config) :
    match ofConfig k config with
    | .error e => config.validate = .error e
    | .ok built => config.validate = .ok () ∧
      Ring.Builds k config.capacity [.queueConfigured config.capacity config.policy]
        [.queueConfigured config.capacity config.policy, .ringCreated config.capacity]
          ring built := by
  unfold ofConfig
  cases valid : config.validate with
  | error e => rfl
  | ok _ =>
    refine ⟨rfl, ?_⟩
    simp only [create, Ring.create]
    cases accepted : k.checkSlots config.capacity with
    | error fault => exact .rejected (by simp [accepted]) (.configured _ _) rfl rfl
    | ok _ =>
      exact .built accepted (Ring.holds_empty config.capacity) (.configured config.policy)
        (by simp [Built.map])

end RingQueue
