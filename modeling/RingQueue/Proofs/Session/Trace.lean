import RingQueue.Proofs.Session.Lives

/-!
Events as a faithful log.

Every operation reports exactly what its request, its result and its ring tell (`Deed.events`), and
a ring that is cleared is announced before any entry goes. The events of a single ring can be
followed from the capacity with which it was built (`Event.follow`): each of them carries the
capacity so far, and together they lead to the present capacity and to the number of evictions
(`trace_faithful`).
-/
namespace RingQueue

variable {α : Type}

/-! ## Following the events of a ring -/

/-- What is known of a ring by its events. -/
structure Known where
  capacity : Nat
  evictions : Nat
  deriving DecidableEq, Repr

/-- What is known after one more event. An event with another capacity than the one so far is out of
place. -/
def Event.follow (known : Known) (event : Event) : Option Known :=
  let carried : Nat :=
    match event with
    | .ringCreated capacity => capacity
    | .queueConfigured capacity _ => capacity
    | .evicted capacity => capacity
    | .spinning capacity => capacity
    | .ringGrown oldCapacity _ _ => oldCapacity
    | .clearing capacity _ => capacity
    | .pushTimedOut capacity => capacity
    | .popTimedOut capacity => capacity
  if carried ≠ known.capacity then none
  else
    match event with
    | .evicted _ => some { known with evictions := known.evictions + 1 }
    | .ringGrown _ newCapacity _ => some { known with capacity := newCapacity }
    | _ => some known

/-- What is known in the end, if no event is out of place. -/
def Event.followAll (known : Known) (events : List Event) : Option Known :=
  events.foldlM Event.follow known

theorem Event.followAll_append {first second : List Event} {before between : Known}
    (known : followAll before first = some between) :
    followAll before (first ++ second) = followAll between second := by
  rw [followAll] at known
  rw [followAll, List.foldlM_append, known]
  rfl

namespace Ring

variable {k : EntryKind α} {capacity evictions : Nat} {log : List (Effect α)}

/-- A ring is born with the capacity that its events carry. -/
theorem Birth.known (birth : Birth k capacity log) :
    Event.followAll ⟨capacity, 0⟩ (Effect.events log) = some ⟨capacity, 0⟩ := by
  cases birth <;> simp [Event.followAll, Event.follow]

/-- Where no ring comes about, no event is out of place. -/
theorem Stillbirth.known (still : Stillbirth k log) :
    ∃ capacity, Event.followAll ⟨capacity, 0⟩ (Effect.events log) = some ⟨capacity, 0⟩ := by
  cases still with
  | plain plain => exact ⟨0, by rw [plain.events]; rfl⟩
  | configured capacity policy => exact ⟨capacity, by simp [Event.followAll, Event.follow]⟩
  | filling capacity copies a => exact ⟨capacity, by simp [Event.followAll]⟩

/-- The events of a turn lead from the old capacity to the new one, and tell of each eviction. -/
theorem Turn.known {r r' : Ring α} {n : Nat} (turn : r.Turn k log r' n) :
    Event.followAll ⟨r.capacity, evictions⟩ (Effect.events log) =
      some ⟨r'.capacity, evictions + n⟩ := by
  cases turn with
  | quiet same plain => simp [plain.events, same, Event.followAll]
  | evicting same plain => simp [plain.events, same, Event.followAll, Event.follow]
  | timedOut kind => rcases kind with rfl | rfl <;> simp [Event.followAll, Event.follow]
  | grown larger same => simp [same, Event.followAll, Event.follow]
  | cleared same entries => simp [same, Event.followAll, Event.follow]
  | notCleared entries => simp [Event.followAll, Event.follow]

end Ring

namespace Session

/-- The events of a ring tell its capacity and how many of its entries made way for others. -/
def Life.Known (life : Life α) : Prop :=
  Event.followAll ⟨life.born, 0⟩ (Effect.events life.log) =
    some ⟨life.channel.ring.capacity, life.evictions⟩

/-- The events of a ring that is gone were in place, too. -/
def WasKnown (log : List (Effect α)) : Prop :=
  ∃ born, (Event.followAll ⟨born, 0⟩ (Effect.events log)).isSome = true

theorem known_last (k : EntryKind α) : Lasting k Life.Known WasKnown where
  turned := by
    intro life ring log n turn known
    rw [Life.Known, Life.turned, Effect.events_append, Event.followAll_append known]
    exact turn.known
  reached := id
  begun := Ring.Birth.known
  failed := by
    intro log still
    obtain ⟨capacity, known⟩ := still.known
    exact ⟨capacity, by rw [known]; rfl⟩
  ended := by
    intro life known
    refine ⟨life.born, ?_⟩
    rw [Effect.events_append, Event.followAll_append known]
    simp [Ring.release, Event.followAll]

/-! ## Announcements -/

/-- A ring that is cleared is announced before anything else is done. -/
def Announced (log : List (Effect α)) : Prop :=
  ∀ capacity discarded, .clearing capacity discarded ∈ Effect.events log →
    log.head? = some (.reported (.clearing capacity discarded))

section Announced

variable {setup : Setup α} {s : Session α} {capacity discarded : Nat}

/-- A clear says how much it discards, and then drops it. -/
theorem clear_head? (k : EntryKind α) (r : Ring α) :
    (r.clear k).effects.head? = some (.reported (.clearing r.capacity r.unreadCount)) := by
  unfold Ring.clear
  dsimp only
  split <;> rfl

/-- Only clears announce that they clear a ring. -/
theorem isClear_of_mem_events {k : EntryKind α} {action : Action α} {c : Channel α} {role : Role}
    {after : Ring α} {result : Result α}
    (member : .clearing capacity discarded ∈ action.events k c role after result) :
    action.isClear = true := by
  by_contra other
  rw [Bool.not_eq_true] at other
  simp only [Action.events, other, Bool.false_eq_true, if_false] at member
  grind

theorem Creation.clearing_not_mem_events (creation : Creation α) :
    .clearing capacity discarded ∉ creation.events setup := by
  intro member
  unfold Creation.events at member
  split at member
  · rcases creation with ⟨_ | _⟩ | ⟨_ | _⟩ <;> simp [Creation.announcement] at member
  · rcases creation with ⟨_ | _⟩ | ⟨_ | _⟩ <;> simp [Creation.configuration] at member
  · cases member

/-- The call of a clear begins with what it reports. -/
theorem call?_announced {action : Action α} {c : Channel α} {role : Role}
    {made : Call α (Result α)} (clears : action.isClear = true)
    (call : action.call? setup c role = some made) :
    Announced made.effects := by
  have first (capacity discarded : Nat)
      (member : .clearing capacity discarded ∈ Effect.events (c.ring.clear setup.kind).effects) :
      (c.ring.clear setup.kind).effects.head? =
        some (.reported (.clearing capacity discarded)) := by
    rw [clear_head?]
    unfold Ring.clear at member
    dsimp only at member
    split at member <;> simp_all [Call.returned]
  cases action with
  | clear =>
    cases call
    exact first
  | exclusive operation =>
    simp only [Action.call?] at call
    split at call
    · cases operation with
      | clear =>
        cases call
        exact first
      | _ => cases clears
    · cases call
  | _ => cases clears

/-- Any action of the caller alone. -/
theorem Performs.announced {name : String} {action : Action α}
    {reply : Setup α → Reply α (Result α)} (performs : Performs s name action reply)
    (clears : action.isClear = true) (setup : Setup α) : Announced (reply setup).effects := by
  cases performs with
  | refused | looked => exact nofun
  | called found offered free call => exact call?_announced clears (call setup)
  | dropped | split | clonedProducer | clonedQueue | handedOver => cases clears

end Announced

/-- Only clears are expected to announce that they clear a ring. -/
theorem Deed.isClear_of_mem_events {setup : Setup α} {d : Deed α} {capacity discarded : Nat}
    (member : .clearing capacity discarded ∈ d.events setup) :
    ∃ name action, d.operation = .act name action ∧ action.isClear = true := by
  unfold Deed.events at member
  split at member
  · exact absurd member (Creation.clearing_not_mem_events _)
  · rename_i name action result c h operation replied place
    exact ⟨name, action, operation, Session.isClear_of_mem_events member⟩
  · cases List.eq_of_mem_replicate member
  · cases member

/-- An operation that reports what is expected of it announces what it clears. -/
theorem Operation.announced {setup : Setup α} {s : Session α} {operation : Operation α}
    {pending pending' : List (Pending α)}
    (ends : operation.Ends pending (operation.run setup s).result pending')
    (events : Effect.events (operation.run setup s).effects =
      Deed.events setup ⟨s, operation, operation.run setup s⟩) :
    Announced (operation.run setup s).effects := by
  intro capacity discarded member
  obtain ⟨name, action, rfl, clears⟩ := Deed.isClear_of_mem_events (events ▸ member)
  generalize replied : (Operation.run setup s (.act name action)).result = result at ends
  cases ends with
  | acted sequential finished =>
    exact (performs s name action).announced clears setup capacity discarded member

theorem History.announced {setup : Setup α} {first s : Session α} {deeds : List (Deed α)}
    {pending : List (Pending α)} (history : History setup first deeds s pending)
    (events : ∀ d ∈ deeds, Effect.events d.reply.effects = d.events setup) :
    ∀ d ∈ deeds, Announced d.reply.effects := by
  induction history with
  | start => exact fun d member => absurd member List.not_mem_nil
  | next operation before ends ih =>
    obtain ⟨earlier, newest⟩ := List.forall_mem_append.mp events
    have announced := Operation.announced ends (newest _ List.mem_cons_self)
    refine List.forall_mem_append.mpr ⟨ih earlier, ?_⟩
    intro d member
    rwa [List.mem_singleton.mp member]

/-! ## Main result -/

/-- What the events of a session tell. -/
structure TraceFaithful (setup : Setup α) (deeds : List (Deed α)) (s : Session α) : Prop where
  -- Every operation reports what happened, and nothing else.
  exactly : ∀ d ∈ deeds, Effect.events d.reply.effects = d.events setup
  announced : ∀ d ∈ deeds, Announced d.reply.effects
  -- The events of each ring, in their order, lead to its capacity and its number of evictions.
  rings : ∃ lives gone, Recorded setup.kind deeds lives gone ∧ lives.map Life.channel = s.channels ∧
    (logOf deeds).Perm (lives.flatMap Life.log ++ gone.flatten) ∧
    (∀ life ∈ lives, life.log.Sublist (logOf deeds) ∧ life.Known) ∧
    ∀ rest ∈ gone, rest.Sublist (logOf deeds) ∧ WasKnown rest
  -- The end of a session is silent.
  closed : Effect.events (s.close setup).effects = []

/-- Whatever operations run, also those inside of constructors, their events tell what happened. -/
theorem trace_faithful {setup : Setup α} {deeds : List (Deed α)} {s : Session α}
    {pending : List (Pending α)} (history : History setup .empty deeds s pending) :
    TraceFaithful setup deeds s := by
  obtain ⟨⟨lives, gone, recorded, current⟩, accounted⟩ := history.recorded
  obtain ⟨alive, complete⟩ := recorded.each (known_last setup.kind)
  obtain ⟨inOrder, inOrder'⟩ := recorded.ordered
  have exactly (d : Deed α) (member : d ∈ deeds) : Effect.events d.reply.effects =
    d.events setup := by
    obtain ⟨_, made⟩ := accounted d member
    exact made.events
  refine ⟨exactly, history.announced exactly, ?_,
    (dropHandles_silent setup.kind s.names s.channels).1⟩
  exact ⟨lives, gone, recorded, current, recorded.partition,
    fun life member => ⟨inOrder life member, alive life member⟩,
    fun rest member => ⟨inOrder' rest member, complete rest member⟩⟩

/-- A queue with settings that overwrites twice, and another one that grows, is cleared and is
waited for. -/
theorem trace_faithful_of_two_queues :
    let setup : Setup Nat := ⟨.plain, none, .endless⟩
    let steps : List (Step Nat) :=
      [.create "p" (.policyQueue (.ofConfig ⟨1, .overwrite⟩)), .act "p" (.push .configured 1),
        .act "p" (.push .configured 2), .emplace "p" .configured [] (.ok 3),
        .create "q" (.queue (.filled 2 5)), .act "q" (.reserve 3), .act "q" (.reserve 2),
          .act "q" (.reserve 0),
        .act "q" .clear, .act "q" (.split "tx" "rx"), .act "rx" (.popWithin (some 0))]
    let s := (Step.runAll setup steps .empty).1
    Effect.events (Answer.logs (Step.runAll setup steps .empty).2) =
      [.queueConfigured 1 .overwrite, .ringCreated 1, .evicted 1, .evicted 1, .ringGrown 2 3 2,
        .clearing 3 2,
        .popTimedOut 3] ∧
    ∃ deeds, History setup .empty deeds s [] ∧ TraceFaithful setup deeds s := by
  intro setup steps s
  have sequential : Step.AreSequential steps :=
    ⟨trivial, rfl, rfl, trivial, trivial, rfl, rfl, rfl, rfl, rfl, rfl, trivial⟩
  have finished : (Step.runAll setup steps .empty).2.any Answer.isWaiting = false := by
    decide +kernel
  obtain ⟨deeds, history, -⟩ := Step.runAll_history steps .empty [] [] .start sequential finished
  exact ⟨by decide +kernel, deeds, history, trace_faithful history⟩

end Session

end RingQueue
