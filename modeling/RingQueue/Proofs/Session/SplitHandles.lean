import RingQueue.Proofs.Session.Allocations
import RingQueue.Proofs.Session.Mirrors

/-!
The handles of a split queue are as good as its owner.

Whatever history the handles of a split queue have, the owner of the unsplit one has a history that
mirrors it (`History.mirrored`), and waits where a handle waits. While the queue lasts, its consumer
is by itself exactly when all producers are gone. With the last handle, and not before, the unread
entries and the block go (`split_faithful`).
-/
namespace RingQueue.Session

variable {α : Type}

/-! ## Histories of the handles -/

/-- Whatever is done through the handles, the owner does the same. -/
theorem History.mirrored {setup : Setup α} {q : String} {split first t : Session α}
    {deeds : List (Deed α)} {pending : List (Pending α)}
    (history : History setup split deeds t pending) (paired : Paired q true split first)
    (starts : Between split []) (start : Between first [])
    (through : ∀ d ∈ deeds, d.operation.isThroughHandle = true) :
    ∃ alive owned u, History setup first owned u pending ∧ Mirrored setup q alive deeds owned ∧
      Paired q alive t u := by
  induction history with
  | start => exact ⟨true, [], first, .start, .start, paired⟩
  | next operation before ends ih =>
    obtain ⟨earlier, here⟩ := List.forall_mem_append.mp through
    have here := List.forall_mem_singleton.mp here
    have between := before.between starts
    obtain ⟨alive, owned, u, history, mirrored, paired⟩ := ih earlier
    cases paired with
    | lasting split =>
      have both : InStep setup q first _ _ _ _ owned _ :=
        ⟨split, between, history.between start, history⟩
      obtain ⟨os, u, next, ⟨mirrors, paired⟩ | ⟨releases, paired⟩⟩ := both.next here ends
      · exact ⟨true, _, u, next, .lasting mirrored mirrors, paired⟩
      · exact ⟨false, _, u, next, .released mirrored releases, paired⟩
    | gone =>
      obtain ⟨late, rfl⟩ := late between here ends
      refine ⟨false, owned, _, history, .late mirrored late, ?_⟩
      have same := late.session
      dsimp only at same
      rw [same]
      exact .gone

/-- A split queue after some deeds through its handles, beside the unsplit one whose owner did the
same. -/
structure Faithful (setup : Setup α) (q : String) (first : Session α) (deeds : List (Deed α))
    (t : Session α) (pending : List (Pending α)) (alive : Bool) (owned : List (Deed α))
    (u : Session α) : Prop where
  -- All results and effects are those of the owner, and the queue goes with its last handle.
  history : History setup first owned u pending
  mirrored : Mirrored setup q alive deeds owned
  paired : Paired q alive t u
  handles : alive = true ↔ ∃ c ∈ t.channels, c.handles ≠ []
  -- What waits does so for the owner as well.
  acting : ∀ name action, action.isSequential = true →
    (t.perform setup name action).result = .waiting →
    action.WaitsFor setup.clock fun once => (u.perform setup q once).result
  entering : ∀ name terms, (t.beginEmplace name terms).result = .ended .waiting →
    (u.beginEmplace q terms).result = .ended .waiting
  -- Handles show what the owner shows, and consumers whether all producers are gone.
  shown : ∀ name c h, t.find? (.name name) = some (c, h) → t.status? name =
    (u.status? q).map fun status =>
      { status with disconnected := if h.role = .consumer then some c.isSole else none }
  disconnected : ∀ name c h, t.find? (.name name) = some (c, h) → h.role = .consumer →
    ((t.status? name).bind Status.disconnected = some true ↔ ¬ c.HasProducer)
  exclusive : ∀ name c h operation, t.find? (.name name) = some (c, h) → h.role = .consumer →
    c.policy = none →
    ((t.perform setup name (.exclusive operation)).result = .exclusive none ↔ c.HasProducer)
  -- Only blocks in use are given back, and one is in use as long as the queue lasts.
  blocks : Uses (logOf deeds) (blocksOf setup.kind first.channels) (blocksOf setup.kind t.channels)

section Faithful

variable {setup : Setup α} {q : String} {c : Channel α} {h : Handle} {blocks : Blocks}
  {pushes : Nat} {kept : List Nat} {first u : Session α} {deeds owned : List (Deed α)}
  {pending : List (Pending α)}

/-- The consumer of a queue without policy gets at the ring when all producers are gone, and only
then. -/
theorem exclusive_iff (split : c.IsSplit) {name : String} (found : c.handle? (.name name) = some h)
    (consumer : h.role = .consumer) (plain : c.policy = none) (operation : Exclusive α) :
    ((⟨[c], blocks, pushes⟩ : Session α).perform setup name (.exclusive operation)).result =
      .exclusive none ↔
      c.HasProducer := by
  obtain ⟨member, here⟩ := Channel.handle?_eq_some found
  have sole := split.isSole_iff member consumer
  have used : (⟨[c], blocks, pushes⟩ : Session α).perform setup name (.exclusive operation) =
      Session.exclusive setup ⟨[c], blocks, pushes⟩ name operation c := by
    simp only [Session.perform, find?_of_handle? blocks pushes found]
    rw [if_neg (by simp [Action.isOffered, plain, consumer]),
      if_neg (by simp [split.free h member consumer])]
    rfl
  rw [used, Session.exclusive]
  split
  · rename_i alone
    refine iff_of_false ?_ (sole.mp alone)
    simp only [Session.call]
    cases (operation.apply setup.kind c.ring).outcome <;> rintro ⟨⟩
  · rename_i shared
    exact iff_of_true rfl (not_not.mp fun gone => shared (sole.mpr gone))

/-- What the handles of a split queue show. -/
theorem status?_eq (kept : List Nat) {name : String} (found : c.handle? (.name name) = some h) :
    (⟨[c], blocks, pushes⟩ : Session α).status? name =
      ((unsplit q c.policy kept pushes c.ring blocks).status? q).map fun status =>
        { status with disconnected := if h.role = .consumer then some c.isSole else none } := by
  rw [Session.status?, Session.status?, find?_of_handle? blocks pushes found, unsplit_find?]
  rfl

/-- What holds while the queue lasts. -/
theorem InStep.faithful (both : InStep setup q first c blocks pushes kept owned pending)
    (mirrored : Mirrored setup q true deeds owned)
    (uses : Uses (logOf deeds) (blocksOf setup.kind first.channels) (blocksOf setup.kind [c])) :
    Faithful setup q first deeds ⟨[c], blocks, pushes⟩ pending true owned
      (unsplit q c.policy kept pushes c.ring blocks) where
  history := both.history
  mirrored := mirrored
  paired := .lasting both.split
  handles := by
    refine iff_of_true rfl ⟨c, List.mem_singleton_self c, fun unreached => ?_⟩
    have sound := both.between.sound.consistent.each c List.mem_cons_self
    exact sound.reached (by rw [Channel.keys, unreached]; rfl)
  acting := fun name action sequential waits => both.acting_waits sequential waits
  entering := fun name terms waits => both.entering_waits waits
  shown := by
    intro name c' h found
    obtain ⟨rfl, found⟩ := of_find?_single found
    exact status?_eq kept found
  disconnected := by
    intro name c' h found consumer
    obtain ⟨rfl, found⟩ := of_find?_single found
    rw [← both.split.isSole_iff (Channel.handle?_eq_some found).1 consumer, Session.status?,
      find?_of_handle? blocks pushes found]
    simp [Channel.status, consumer]
  exclusive := by
    intro name c' h operation found consumer plain
    obtain ⟨rfl, found⟩ := of_find?_single found
    exact exclusive_iff both.split found consumer plain operation
  blocks := uses

/-- What holds when the queue is gone. -/
theorem faithful_gone (history : History setup first owned ⟨[], blocks, pushes⟩ pending)
    (mirrored : Mirrored setup q false deeds owned)
    (uses : Uses (logOf deeds) (blocksOf setup.kind first.channels) 0) :
    Faithful setup q first deeds ⟨[], blocks, pushes⟩ pending false owned ⟨[], blocks, pushes⟩ where
  history := history
  mirrored := mirrored
  paired := .gone
  handles := by simp
  acting := by
    intro name action sequential waits
    cases action <;> cases waits
  entering := nofun
  shown := nofun
  disconnected := nofun
  exclusive := nofun
  blocks := uses

end Faithful

/-! ## Splitting -/

/-- The handles into which an owner is split. When both get the same name, the consumer keeps it. -/
def splitHandles (producer consumer : String) : List Handle :=
  if producer = consumer then [.named consumer .consumer]
  else [.named producer .producer, .named consumer .consumer]

theorem splitHandles_isSplit (r : Ring α) (policy : Option Policy) (producer consumer : String) :
    (⟨r, policy, splitHandles producer consumer⟩ : Channel α).IsSplit := by
  unfold splitHandles
  split <;> exact ⟨by simp [Handle.named], by simp [Handle.named], by simp [Handle.named], by simp⟩

/-- Splitting a queue does nothing but to change its handles. -/
theorem unsplit_split (setup : Setup α) (q : String) (policy : Option Policy) (pushes : Nat)
    (r : Ring α) (blocks : Blocks) (producer consumer : String) :
    (unsplit q policy [] pushes r blocks).perform setup q (.split producer consumer) =
      ⟨⟨[⟨r, policy, splitHandles producer consumer⟩], blocks, pushes⟩, .done, []⟩ := by
  have removed := (located_single (Channel.owned_handle? q policy [] r)).removeChannel
  simp only [Session.perform, unsplit_find?]
  change Session.split setup _ _ _ _ _ = _
  simp only [Session.split, unsplit, removed, splitHandles]
  split <;> rfl

/-- Whatever is done through the handles of a split queue, in any order and with any number of
producers, the owner of the unsplit queue does the same with the same results and effects. -/
theorem split_faithful (setup : Setup α) {r : Ring α} {capacity : Nat} {entries : List α}
    (holds : r.Holds capacity entries 0) (q producer consumer : String) (policy : Option Policy)
    (blocks : Blocks) :
    let first := unsplit q policy [] 0 r blocks
    let split := first.perform setup q (.split producer consumer)
    split.result = .done ∧ split.effects = [] ∧ ∀ deeds t pending, History setup split.session
      deeds t pending →
      (∀ d ∈ deeds, d.operation.isThroughHandle = true) →
      ∃ alive owned u, Faithful setup q first deeds t pending alive owned u := by
  have splits := unsplit_split setup q policy 0 r blocks producer consumer
  have start := Between.unsplit holds q policy blocks
  have starts : Between (Operation.run setup _ (.act q (.split producer consumer))).session [] :=
    start.next (.acted rfl (by rw [splits]; nofun))
  simp only [Operation.run] at starts
  dsimp only
  rw [splits] at starts ⊢
  refine ⟨rfl, rfl, ?_⟩
  intro deeds t pending history through
  have isSplit := splitHandles_isSplit r policy producer consumer
  have pair : Paired q true ⟨[⟨r, policy, splitHandles producer consumer⟩], blocks, 0⟩
      (unsplit q policy [] 0 r blocks) := .lasting isSplit
  obtain ⟨alive, owned, u, owner, mirrored, paired⟩ := history.mirrored pair starts start through
  have uses := history.uses starts
  refine ⟨alive, owned, u, ?_⟩
  cases paired with
  | lasting split =>
    have both : InStep setup q _ _ _ _ _ owned _ :=
      ⟨split, history.between starts, owner.between start, owner⟩
    exact both.faithful mirrored uses
  | gone => exact faithful_gone owner mirrored uses

/-- A producer is cloned and both are dropped, the consumer enlarges the queue, and its drop is the
last. The first block was given back when the queue grew, and the second one with the entry that was
left. -/
theorem split_faithful_of_two_producers :
    let setup : Setup Nat := ⟨.plain, none, .endless⟩
    let first : Session Nat := unsplit "q" none [] 0 (.empty 2) ⟨1, 1⟩
    let split := first.perform setup "q" (.split "tx" "rx")
    let actions : List (String × Action Nat) :=
      [("tx", .push (.asked .reject) 7), ("tx", .clone "ty"), ("rx", .exclusive (.reserve 4)),
        ("tx", .drop), ("ty", .push (.asked .overwrite) 8), ("ty", .drop),
        ("rx", .exclusive (.reserve 4)), ("rx", .popFront), ("rx", .drop)]
    let t := (Step.runAll setup (actions.map fun a => .act a.1 a.2) split.session).1
    t.channels.length = 0 ∧ t.blocks = ⟨0, 2⟩ ∧ (Ring.empty 2 : Ring Nat).Holds 2 [] 0 ∧
      ∃ deeds, History setup split.session deeds t [] ∧
        (∀ d ∈ deeds, d.operation.isThroughHandle = true) ∧
        ∃ alive owned u, Faithful setup "q" first deeds t [] alive owned u := by
  intro setup first split actions t
  have finished : (Step.runAll setup (actions.map fun a => .act a.1 a.2) split.session).2.any
      Answer.isWaiting = false := by decide +kernel
  have holds : (Ring.empty 2 : Ring Nat).Holds 2 [] 0 := Ring.holds_empty 2
  have sequential : ∀ a ∈ actions, a.2.isSequential = true := by simp [actions, Action.isSequential]
  obtain ⟨deeds, history, operations⟩ :=
    History.acts (History.start : History setup split.session [] _ []) actions sequential finished
  have through : ∀ d ∈ deeds, d.operation.isThroughHandle = true := by
    intro d member
    have action : d.operation ∈ deeds.map Deed.operation := List.mem_map_of_mem member
    rw [operations] at action
    obtain ⟨a, -, same⟩ := List.mem_map.mp action
    rw [← same]
    rfl
  obtain ⟨-, -, faithful⟩ := split_faithful setup holds "q" "tx" "rx" none ⟨1, 1⟩
  exact ⟨by decide +kernel, by decide +kernel, holds, deeds, history, through, faithful deeds t []
    history through⟩

end RingQueue.Session
