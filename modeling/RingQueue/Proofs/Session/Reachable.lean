import RingQueue.Proofs.Protocol.Transit
import RingQueue.Proofs.Session.Handles
import RingQueue.Proofs.Session.Lives

/-!
Sessions that can be reached.

Operations of the caller follow each other, and between two of them any number of threads may have
shared a ring, in any order of their accesses, until all of them were done. In every session that is
reached so the rings are at rest, with an admission for each push that is under way
(`Reachable.between`), and have capacities that a new ring can have (`Reachable.sized`); and no
handle is without a key (`Reachable.held`).
-/
namespace RingQueue

/-- A ring that threads have shared is at rest again once all of them are done. -/
theorem Protocol.Reachable.rest {α : Type} {r : Ring α} {capacity : Nat} {unread : List α}
    (holds : r.Holds capacity unread 0) {calls : List (List (Protocol.Request α))}
    {last : Protocol.System α} (reachable : Protocol.Reachable (.start r calls) last)
    (done : last.isDone = true) :
    ∃ left, last.ring.Holds capacity left 0 := by
  have all_free : ∀ σ ∈ last.stages, σ = .free := by
    intro σ member
    obtain ⟨thread, inside, rfl⟩ := List.mem_map.mp member
    have idle := (Protocol.Thread.isDone_iff.mp (List.all_eq_true.mp done thread inside)).1
    rw [idle]
    rfl
  exact ⟨_, ((reachable.sound holds).rest all_free).1⟩

/-- The ring has a capacity that a new ring can have. -/
def Ring.Sized {α : Type} (k : EntryKind α) (r : Ring α) : Prop := k.checkSlots r.capacity = .ok ()

namespace Session

variable {α : Type}

/-! ## What can be reached -/

/-- What operations and threads can make of a session without queues, and the pushes that are under
way then. -/
inductive Reachable (setup : Setup α) : Session α → List (Pending α) → Prop where
  | start : Reachable setup .empty []
  | next {s : Session α} {pending pending' : List (Pending α)} (operation : Operation α)
      (before : Reachable setup s pending)
      (ends : operation.Ends pending (operation.run setup s).result pending') :
      Reachable setup (operation.run setup s).session pending'
  -- Threads share a ring that no push under way counts on, until all of them are done.
  | threads {s : Session α} {pending : List (Pending α)} {key : Key} {c : Channel α} {h : Handle}
      {calls : List (List (Protocol.Request α))} {last : Protocol.System α}
      (before : Reachable setup s pending) (found : s.find? key = some (c, h))
      (free : pushCount c.keys = 0) (reachable : Protocol.Reachable (.start c.ring calls) last)
      (done : last.isDone = true) :
      Reachable setup { s with channels := setRing key last.ring s.channels } pending

/-- Pushes that are under way already do not count for the end of an operation. -/
theorem Operation.Ends.frame {operation : Operation α} {pending pending' : List (Pending α)}
    {result : Begun α} (ends : operation.Ends pending result pending') (others : List (Pending α)) :
    operation.Ends (pending ++ others) result (pending' ++ others) := by
  cases ends with
  | created => exact .created
  | acted sequential finished => exact .acted sequential finished
  | turnedDown finished => exact .turnedDown finished
  | entered => exact .entered
  | left => exact .left

/-- What a caller alone makes of a session that can be reached. -/
theorem Reachable.goes_on {setup : Setup α} {first s : Session α} {deeds : List (Deed α)}
    {pending others : List (Pending α)} (reached : Reachable setup first others)
    (history : History setup first deeds s pending) : Reachable setup s (pending ++ others) := by
  induction history with
  | start => exact reached
  | next operation before ends ih => exact .next operation ih (ends.frame others)

/-- The constructor of a push that was granted room finds a session that can be reached. -/
theorem Reachable.entered {setup : Setup α} {s : Session α} {pending : List (Pending α)}
    (reached : Reachable setup s pending) {name : String} {terms : Terms} {number : Nat}
    {policy : OverflowPolicy} {evicted : Option α}
    (granted : (s.beginEmplace name terms).result = .granted number policy evicted) :
    Reachable setup (s.beginEmplace name terms).session
      (⟨number, terms, policy, evicted⟩ :: pending) := by
  refine .next (.enter name terms) reached ?_
  rw [Operation.run, granted]
  exact .entered

/-- What steps make of it. -/
theorem Reachable.runAll {setup : Setup α} {s : Session α} {pending : List (Pending α)}
    (reached : Reachable setup s pending) {steps : List (Step α)}
    (sequential : Step.AreSequential steps)
    (finished : (Step.runAll setup steps s).2.any Answer.isWaiting = false) :
    Reachable setup (Step.runAll setup steps s).1 pending := by
  obtain ⟨deeds, history, -⟩ := Step.runAll_history steps s [] [] .start sequential finished
  exact reached.goes_on history

/-! ## Rings at rest -/

/-- A ring can be exchanged for one at rest with as many admissions. -/
theorem Sound.exchange {s : Session α} (sound : s.Sound) {key : Key}
    {before after : List (Channel α)} {c : Channel α}
    (place : Located key s.channels before c after) {ring : Ring α} {capacity : Nat}
    {entries : List α} (holds : ring.Holds capacity entries (pushCount c.keys)) :
    Session.Sound { s with channels := setRing key ring s.channels } := by
  have old := sound.consistent.each c place.mem
  refine ⟨?_, fun number => ?_⟩
  · dsimp only
    rw [place.setRing]
    exact sound.consistent.replace place ⟨⟨capacity, entries, holds⟩, old.sole, old.reached⟩
      (.refl _)
  · dsimp only
    rw [place.setRing, place.keysOf_ring]
    exact sound.under_way number

theorem Reachable.between {setup : Setup α} {s : Session α} {pending : List (Pending α)}
    (reached : Reachable setup s pending) : Between s pending := by
  induction reached with
  | start => exact .empty
  | next operation before ends ih => exact ih.next ends
  | threads before found free reachable done ih =>
    obtain ⟨earlier, later, place⟩ := located_of_findChannel ih.sound.consistent.distinct found
    obtain ⟨capacity, entries, holds⟩ := (ih.sound.consistent.each _ place.mem).rest
    rw [free] at holds
    obtain ⟨left, rest⟩ := reachable.rest holds done
    exact ⟨ih.sound.exchange place (by rwa [free]), ih.pushes, ih.stacked⟩

/-- The ring behind a key, as it stands in a session that is reached. -/
theorem Reachable.located {setup : Setup α} {s : Session α} {pending : List (Pending α)}
    (reached : Reachable setup s pending) {key : Key} {c : Channel α} {h : Handle}
    (found : s.find? key = some (c, h)) :
    (∃ before after, Located key s.channels before c after) ∧
      ∃ capacity entries, c.ring.Holds capacity entries (pushCount c.keys) := by
  have sound := reached.between.sound
  obtain ⟨before, after, place⟩ := located_of_findChannel sound.consistent.distinct found
  exact ⟨⟨before, after, place⟩, (sound.consistent.each c place.mem).rest⟩

/-! ## Capacities -/

/-- All rings have capacities that new rings can have. -/
def Sized (k : EntryKind α) (channels : List (Channel α)) : Prop :=
  ∀ r ∈ channels.map Channel.ring, r.Sized k

namespace Sized

variable {k : EntryKind α} {channels others : List (Channel α)}

theorem sublist (sized : Sized k channels)
    (part : (others.map Channel.ring).Sublist (channels.map Channel.ring)) : Sized k others :=
  fun r member => sized r (part.subset member)

theorem append (sized : Sized k channels) {c : Channel α} (new : c.ring.Sized k) :
    Sized k (channels ++ [c]) := by
  intro r member
  rw [List.map_append, List.mem_append] at member
  rcases member with old | last
  · exact sized r old
  · rw [List.map_singleton, List.mem_singleton] at last
    rwa [last]

theorem mem (sized : Sized k channels) {c : Channel α} (member : c ∈ channels) : c.ring.Sized k :=
  sized _ (List.mem_map_of_mem member)

/-- The channel behind a key can be exchanged for another one. -/
theorem replace (sized : Sized k channels) {key : Key} {before after : List (Channel α)}
    {c c' : Channel α} (place : Located key channels before c after) (new : c'.ring.Sized k) :
    Sized k (before ++ c' :: after) := by
  intro r member
  obtain ⟨other, inside, rfl⟩ := List.mem_map.mp member
  rcases List.mem_append.mp inside with earlier | later
  · exact sized.mem (place.split ▸ List.mem_append_left _ earlier)
  · rcases List.mem_cons.mp later with rfl | later
    · exact new
    · exact sized.mem (place.split ▸ List.mem_append_right _ (List.mem_cons_of_mem _ later))

end Sized

/-- Handles that are given up take rings with them, and bring none. -/
theorem dropHandle_rings (k : EntryKind α) (key : Key) (channels : List (Channel α)) :
    ((dropHandle k key channels).channels.map Channel.ring).Sublist
      (channels.map Channel.ring) := by
  induction channels with
  | nil => exact .refl _
  | cons c rest ih =>
    simp only [dropHandle]
    split
    · exact ih.cons_cons c.ring
    · split
      · exact List.sublist_cons_self _ _
      · exact .refl _

theorem dropHandles_rings (k : EntryKind α) (names : List String) (channels : List (Channel α)) :
    ((dropHandles k names channels).channels.map Channel.ring).Sublist
      (channels.map Channel.ring) := by
  induction names generalizing channels with
  | nil => exact .refl _
  | cons name names ih => exact (ih _).trans (dropHandle_rings k (.name name) channels)

theorem removeChannel_rings (key : Key) (channels : List (Channel α)) :
    ((removeChannel key channels).map Channel.ring).Sublist (channels.map Channel.ring) :=
  List.filter_sublist.map Channel.ring

/-- The end of a push leaves the capacity as it is. -/
theorem Ring.settle_capacity (r : Ring α) (evicted : Option α) (made : Except Fault α) :
    (r.settle evicted made).ring.capacity = r.capacity := by
  cases made with
  | ok a =>
    simp only [Ring.settle, Ring.publish]
    split
    · rename_i published
      split at published
      · cases published
        rfl
      · cases published
    · rfl
  | error fault => rfl

theorem Pending.closing_capacity (push : Pending α) (k : EntryKind α) (made : Except Fault α)
    (r : Ring α) : (push.closing k made r).ring.capacity = r.capacity := by
  have kept := Ring.settle_capacity r push.evicted made
  unfold closing
  split
  · exact kept
  · generalize r.settle push.evicted made = settled at kept ⊢
    obtain ⟨outcome, ring, effects⟩ := settled
    rcases outcome with (_ | _) | _ | _ <;> exact kept

/-- Only a ring that is asked to grow reports that it has grown. -/
theorem Action.growth_not_expected {action : Action α} (reserves : action.isReserve = false)
    (k : EntryKind α) (c : Channel α) (role : Role) (after : Ring α) (result : Result α)
    (old new len : Nat) :
    .ringGrown old new len ∉ action.events k c role after result := by
  simp only [Action.events, reserves]
  intro expected
  repeat' split at expected
  all_goals simp_all

/-- A call on a ring keeps the capacity, or makes it one that a new ring can have. -/
theorem Action.call?_sized {setup : Setup α} {c : Channel α} {role : Role} {action : Action α}
    {made : Call α (Result α)} {capacity reserved : Nat} {entries : List α}
    (holds : c.ring.Holds capacity entries reserved) (alone : action.needsAll = true → reserved = 0)
    (call : action.call? setup c role = some made) (finished : resultOfCall made ≠ .waiting)
    (sized : c.ring.Sized setup.kind) : made.ring.Sized setup.kind := by
  have grows (larger : Nat) : (c.ring.reserve setup.kind larger).ring.Sized setup.kind := by
    unfold Ring.reserve
    split
    · exact sized
    · cases accepted : setup.kind.checkSlots larger with
      | error fault => exact sized
      | ok _ => exact accepted
  have meets := action.call?_meets holds alone call (outcome_ne_waiting finished)
  cases reserves : action.isReserve with
  | true =>
    cases action with
    | reserve larger =>
      cases call
      exact grows larger
    | exclusive operation =>
      cases operation with
      | reserve larger =>
        simp only [Action.call?] at call
        split at call
        · cases call
          exact grows larger
        · cases call
      | _ => cases reserves
    | _ => cases reserves
  | false =>
    have silent := Action.growth_not_expected reserves setup.kind c role made.ring
      (resultOfCall made)
    rw [← meets.events] at silent
    -- Any other turn would be reported as growth.
    have turn := meets.turn
    generalize made.effects = log, made.ring = ring, Action.evictions _ _ _ _ =
      evictions at turn silent
    cases turn with
    | quiet same | evicting same | cleared same => rwa [Ring.Sized, same]
    | timedOut | notCleared => exact sized
    | grown larger same =>
      exact absurd (by simp [same]) (silent c.ring.capacity ring.capacity c.ring.unreadCount)

section Operations

variable {setup : Setup α} {s : Session α}

theorem Sized.created (sized : Sized setup.kind s.channels) (name : String)
    (creation : Creation α) :
    Sized setup.kind (s.create setup name creation).session.channels := by
  rw [create_eq]
  cases made : creation.build setup with
  | error e => exact sized
  | ok built =>
    have builds := creation.builds setup made
    cases builds with
    | rejected | aborted => exact sized
    | built good holds =>
      refine (sized.sublist (dropHandles_rings _ _ _)).append ?_
      rwa [Ring.Sized, holds.capacity]

theorem Sized.performed (sized : Sized setup.kind s.channels) (sound : s.Sound) {name : String}
    {action : Action α} {reply : Setup α → Reply α (Result α)}
    (performs : Performs s name action reply) (sequential : action.isSequential = true)
    (finished : (reply setup).result ≠ .waiting) :
    Sized setup.kind (reply setup).session.channels := by
  cases performs with
  | refused | looked => exact sized
  | called found offered free call =>
    obtain ⟨before, after, place⟩ := located_of_findChannel sound.consistent.distinct found
    obtain ⟨capacity, entries, holds⟩ := (sound.consistent.each _ place.mem).rest
    have alone := sound.alone_of_needsAll found offered free (call setup)
    dsimp only at finished ⊢
    rw [call_eq] at finished ⊢
    simp only [Session.after]
    rw [place.setRing]
    exact sized.replace place
      (Action.call?_sized holds alone (call setup) finished (sized.mem place.mem))
  | dropped => exact sized.sublist (dropHandle_rings _ _ _)
  | @split c h found =>
    have old : c.ring.Sized setup.kind := sized.mem (findChannel_eq_some found).1
    exact (sized.sublist ((dropHandles_rings _ _ _).trans (removeChannel_rings _ _))).append old
  | @clonedProducer c h found =>
    have old : c.ring.Sized setup.kind := sized.mem (findChannel_eq_some found).1
    exact (sized.sublist ((dropHandle_rings _ _ _).trans (removeChannel_rings _ _))).append old
  | @clonedQueue c h found owner new =>
    obtain ⟨before, after, place⟩ := located_of_findChannel sound.consistent.distinct found
    obtain ⟨capacity, entries, holds⟩ := (sound.consistent.each _ place.mem).rest
    obtain ⟨same, copied⟩ := holds.duplicate_logs setup.kind
    simp only [cloneQueue, same, place.setRing_self]
    cases outcome : (c.ring.duplicate setup.kind).outcome with
    | returned copy =>
      rw [outcome] at copied
      refine (sized.sublist (dropHandles_rings _ _ _)).append ?_
      rw [Ring.Sized, copied.1]
      exact sized.mem place.mem
    | aborted | waiting => exact sized
  | handedOver => cases sequential

theorem Sized.begun (sized : Sized setup.kind s.channels) (sound : s.Sound) (name : String)
    (terms : Terms) :
    Sized setup.kind (s.beginEmplace name terms).session.channels := by
  have beginning := sound.beginning name terms
  generalize s.beginEmplace name terms = reply at beginning
  cases beginning with
  | refused | denied | waiting => exact sized
  | granted found place holds requested =>
    refine sized.replace place ?_
    have old := sized.mem place.mem
    rw [Ring.Sized, holds.capacity] at old
    -- Both ways to be granted room keep the number of slots.
    cases requested with
    | room room admitted | evicting kind contents full admitted =>
      rwa [Ring.Sized, Channel.entered, Channel.keeping, admitted.capacity]

theorem Sized.ended (sized : Sized setup.kind s.channels) (sound : s.Sound) (push : Pending α)
    (made : Except Fault α) :
    Sized setup.kind (s.endEmplace setup push.number push.terms push.policy push.evicted
      made).session.channels := by
  cases found : s.find? (.push push.number) with
  | none =>
    simp only [endEmplace, found]
    exact sized
  | some reached =>
    obtain ⟨c, h⟩ := reached
    obtain ⟨before, after, place⟩ := located_of_findChannel sound.consistent.distinct found
    have old := sized.mem place.mem
    rw [push.leave_eq made found]
    refine Sized.sublist ?_ (dropHandle_rings _ _ _)
    rw [place.setRing]
    exact sized.replace place (by rwa [Ring.Sized, push.closing_capacity])

end Operations

/-- However a session was reached, its rings have capacities that new rings can have. -/
theorem Reachable.sized {setup : Setup α} {s : Session α} {pending : List (Pending α)}
    (reached : Reachable setup s pending) : Sized setup.kind s.channels := by
  induction reached with
  | start => exact nofun
  | @next s pending pending' operation before ends ih =>
    have sound := before.between.sound
    cases operation with
    | create name creation => exact ih.created name creation
    | act name action =>
      generalize replied : (Operation.run setup s (.act name action)).result = result at ends
      cases ends with
      | acted sequential finished =>
        cases replied
        exact ih.performed sound (performs _ name _) sequential finished
    | enter name terms => exact ih.begun sound name terms
    | leave push made => exact ih.ended sound push made
  | threads before found free reachable done ih =>
    obtain ⟨⟨earlier, later, place⟩, capacity, entries, holds⟩ := before.located found
    rw [free] at holds
    obtain ⟨left, rest⟩ := reachable.rest holds done
    have old := ih.mem place.mem
    dsimp only
    rw [place.setRing]
    refine ih.replace place ?_
    rwa [Ring.Sized, rest.capacity, ← holds.capacity]

/-! ## Handles -/

theorem Handle.named_held (name : String) (role : Role) : (named name role).keys ≠ [] :=
  List.cons_ne_nil _ _

/-- All handles can be found. -/
def Held (channels : List (Channel α)) : Prop := ∀ c ∈ channels, ∀ h ∈ c.handles, h.keys ≠ []

namespace Held

variable {channels others : List (Channel α)}

theorem append (held : Held channels) {c : Channel α} (new : ∀ h ∈ c.handles, h.keys ≠ []) :
    Held (channels ++ [c]) := by
  intro other member
  rcases List.mem_append.mp member with old | last
  · exact held other old
  · rwa [List.mem_singleton.mp last]

theorem subset (held : Held channels) (part : others ⊆ channels) : Held others :=
  fun c member => held c (part member)

theorem setRing (held : Held channels) (key : Key) (ring : Ring α) :
    Held (setRing key ring channels) := by
  intro c member
  obtain ⟨old, inside, rfl⟩ := List.mem_map.mp member
  have same := held old inside
  split <;> exact same

theorem dropHandle (held : Held channels) (k : EntryKind α) (key : Key) :
    Held (dropHandle k key channels).channels := by
  induction channels with
  | nil => exact nofun
  | cons c rest ih =>
    obtain ⟨first, later⟩ := List.forall_mem_cons.mp held
    simp only [Session.dropHandle]
    split
    · exact List.forall_mem_cons.mpr ⟨first, ih later⟩
    · split
      · exact later
      · refine List.forall_mem_cons.mpr ⟨fun h member => ?_, later⟩
        obtain ⟨old, -, left⟩ := List.mem_filterMap.mp member
        exact (Handle.without_eq_some left).2.2

theorem dropHandles (held : Held channels) (k : EntryKind α) (names : List String) :
    Held (dropHandles k names channels).channels := by
  induction names generalizing channels with
  | nil => exact held
  | cons name names ih => exact ih (held.dropHandle k (.name name))

/-- The pushes that begin add keys. -/
theorem keeping (held : Held channels) (key : Key) (number : Nat) :
    Held (channels.map fun c => if c.isReached key then c.keeping key number else c) := by
  intro c member
  obtain ⟨old, inside, rfl⟩ := List.mem_map.mp member
  split
  · intro h keeps
    obtain ⟨before, beforeMember, rfl⟩ := List.mem_map.mp keeps
    split
    · exact List.ne_nil_of_mem ((before.keys_kept number).symm.subset List.mem_cons_self)
    · exact held old inside before beforeMember
  · exact held old inside

section Operations

variable {setup : Setup α} {s : Session α}

theorem created (held : Held s.channels) (name : String) (creation : Creation α) :
    Held (s.create setup name creation).session.channels := by
  rw [create_eq]
  cases creation.build setup with
  | error e => exact held
  | ok built =>
    simp only [placeBuilt]
    split
    · exact held
    · exact (held.dropHandles _ _).append (List.forall_mem_singleton.mpr (Handle.named_held _ _))

theorem performed (held : Held s.channels) {name : String} {action : Action α}
    {reply : Setup α → Reply α (Result α)} (performs : Performs s name action reply)
    (sequential : action.isSequential = true) :
    Held (reply setup).session.channels := by
  have others : Held (Session.removeChannel (.name name) s.channels) :=
    held.subset List.filter_sublist.subset
  cases performs with
  | refused | looked => exact held
  | called => exact held.setRing _ _
  | dropped => exact held.dropHandle _ _
  | split found owner free producer consumer =>
    refine (others.dropHandles _ _).append ?_
    dsimp only
    split
    · exact List.forall_mem_singleton.mpr (Handle.named_held _ _)
    · exact List.forall_mem_cons.mpr ⟨Handle.named_held _ _, List.forall_mem_singleton.mpr
        (Handle.named_held _ _)⟩
  | clonedProducer found producer new =>
    refine (others.dropHandle _ _).append (List.forall_mem_append.mpr ⟨fun h member => ?_, ?_⟩)
    · obtain ⟨old, -, left⟩ := List.mem_filterMap.mp member
      exact (Handle.without_eq_some left).2.2
    · exact List.forall_mem_singleton.mpr (Handle.named_held _ _)
  | clonedQueue found owner new =>
    simp only [cloneQueue]
    split
    · exact ((held.setRing _ _).dropHandles _ _).append
        (List.forall_mem_singleton.mpr (Handle.named_held _ _))
    · exact held.setRing _ _
    · exact held.setRing _ _
  | handedOver => cases sequential

theorem begun (held : Held s.channels) (name : String) (terms : Terms) :
    Held (s.beginEmplace name terms).session.channels := by
  unfold beginEmplace
  split
  · exact held
  · dsimp only
    split
    · exact held
    · split
      · exact (held.setRing _ _).keeping _ _
      · cases terms <;> exact held.setRing _ _
      · exact held.setRing _ _
      · exact held.setRing _ _

theorem ended (held : Held s.channels) (push : Pending α) (made : Except Fault α) :
    Held (s.endEmplace setup push.number push.terms push.policy push.evicted
      made).session.channels := by
  cases found : s.find? (.push push.number) with
  | none =>
    simp only [endEmplace, found]
    exact held
  | some reached =>
    obtain ⟨c, h⟩ := reached
    rw [push.leave_eq made found]
    exact (held.setRing _ _).dropHandle _ _

end Operations

end Held

/-- However a session was reached, its handles can be found. -/
theorem Reachable.held {setup : Setup α} {s : Session α} {pending : List (Pending α)}
    (reached : Reachable setup s pending) : Held s.channels := by
  induction reached with
  | start => exact nofun
  | @next s pending pending' operation before ends ih =>
    cases operation with
    | create name creation => exact ih.created name creation
    | act name action =>
      generalize replied : (Operation.run setup s (.act name action)).result = result at ends
      cases ends with
      | acted sequential finished => exact ih.performed (performs _ name _) sequential
    | enter name terms => exact ih.begun name terms
    | leave push made => exact ih.ended push made
  | threads before found free reachable done ih => exact ih.setRing _ _

end Session

end RingQueue
