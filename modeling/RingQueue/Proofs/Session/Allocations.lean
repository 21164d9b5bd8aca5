import RingQueue.Proofs.Ring.Blocks
import RingQueue.Proofs.Session.Lives

/-!
Blocks are neither leaked nor given back twice.

The blocks in use are those of the rings that are alive, one for each, of its present capacity
(`Evolves.uses`). The counters of the session follow them, since each operation counts what it logs
(`Operation.run_blocks`). When all handles are dropped, nothing is in use any more
(`blocks_accounted`).
-/
namespace RingQueue.Session

variable {α : Type}

/-! ## The blocks of rings -/

section Lives

variable {k : EntryKind α} {lives lives' : List (Life α)} {log : List (Effect α)} {n : Nat}
  {gone : List (List (Effect α))} {deeds : List (Deed α)}

/-- The blocks that rings need: one each, of their capacities, unless entries have no content. -/
def blocksOf (k : EntryKind α) (channels : List (Channel α)) : Multiset Nat :=
  (channels.flatMap fun c => k.blocksFor c.ring.capacity : List Nat)

theorem blocksOf_append (channels others : List (Channel α)) :
    blocksOf k (channels ++ others) = blocksOf k channels + blocksOf k others := by
  rw [blocksOf, List.flatMap_append]
  rfl

theorem blocksOf_singleton (c : Channel α) : blocksOf k [c] = k.blocksFor c.ring.capacity :=
  congrArg _ (List.flatMap_singleton _ c)

/-- The block of one ring, and those of the others. -/
theorem blocksOf_middle (before after : List (Channel α)) (c : Channel α) :
    blocksOf k (before ++ c :: after) = k.blocksFor c.ring.capacity + blocksOf k
      (before ++ after) := by
  rw [List.append_cons, blocksOf_append, blocksOf_append, blocksOf_append, blocksOf_singleton]
  abel

theorem card_blocksOf (sized : k.zeroSized = false) (channels : List (Channel α)) :
    (blocksOf k channels).card = channels.length := by
  simp [blocksOf, EntryKind.blocksFor, sized]

/-- While lives evolve, the blocks in use stay those of the rings that are alive. -/
theorem Evolves.uses (evolves : Evolves k lives log n lives' gone) :
    Uses log (blocksOf k (lives.map Life.channel)) (blocksOf k (lives'.map Life.channel)) := by
  induction evolves with
  | stays => exact .nil _
  | turns before after turn =>
    simp only [List.map_append, List.map_cons, blocksOf_middle]
    exact turn.uses.frame _
  | rehandled before after life handles =>
    simp only [List.map_append, List.map_cons, blocksOf_middle]
    exact .nil _
  | moves before after life handles =>
    simp only [List.map_append, List.map_cons, List.map_nil, blocksOf_middle, List.append_nil]
    exact .nil _
  | @begins lives c log birth =>
    have born := birth.uses.frame (blocksOf k (lives.map Life.channel))
    rw [zero_add, add_comm] at born
    rw [List.map_append, blocksOf_append]
    exact (blocksOf_singleton c).symm ▸ born
  | fails lives still =>
    have nothing := still.uses.frame (blocksOf k (lives.map Life.channel))
    rwa [zero_add] at nothing
  | ends before after life =>
    have given := (life.channel.ring.release_uses (k := k)).frame
      (blocksOf k ((before ++ after).map Life.channel))
    rw [zero_add] at given
    rw [List.map_append, List.map_cons, blocksOf_middle, ← List.map_append]
    exact given
  | trans first second ih ih' => exact ih.append ih'

theorem Recorded.uses (recorded : Recorded k deeds lives gone) :
    Uses (logOf deeds) 0 (blocksOf k (lives.map Life.channel)) := by
  induction recorded with
  | start => exact .nil _
  | next before evolves current ih =>
    rw [logOf_append, logOf_singleton]
    exact ih.append evolves.uses

/-- From any session on, the blocks in use stay those of the rings that are alive. -/
theorem History.uses {setup : Setup α} {first s : Session α} {pending : List (Pending α)}
    (history : History setup first deeds s pending) (start : Between first []) :
    Uses (logOf deeds) (blocksOf setup.kind first.channels) (blocksOf setup.kind s.channels) := by
  induction history with
  | start => exact .nil _
  | @next deeds s pending pending' operation before ends ih =>
    have current : (s.channels.map fun c => Life.begun c []).map Life.channel = s.channels := by
      rw [List.map_map]
      exact List.map_id _
    obtain ⟨lives, gone, evolves, now⟩ := ((before.between start).accounted ends current).follows
    have uses := evolves.uses
    rw [current, now] at uses
    rw [logOf_append, logOf_singleton]
    exact ih.append uses

/-- What is logged of one ring uses its block only, until the ring gives it back. -/
theorem blocks_last (k : EntryKind α) :
    Lasting k (fun life => Uses life.log 0 (k.blocksFor life.channel.ring.capacity))
      fun rest => Uses rest 0 0 where
  turned := fun turn alive => alive.append turn.uses
  reached := id
  begun := Ring.Birth.uses
  failed := Ring.Stillbirth.uses
  ended := fun alive => alive.append (Ring.release_uses _)

/-- For entries without content no block is ever taken. -/
theorem Evolves.idle (evolves : Evolves k lives log n lives' gone) (empty : k.zeroSized = true) :
    Effect.IsIdle log := by
  induction evolves with
  | stays | rehandled | moves => exact .nil
  | turns before after turn => exact turn.idle empty
  | begins lives birth => exact birth.idle empty
  | fails lives still => exact still.idle empty
  | ends before after life => exact life.channel.ring.release_idle empty
  | trans first second ih ih' => exact ih.append ih'

theorem Recorded.idle (recorded : Recorded k deeds lives gone) (empty : k.zeroSized = true) :
    Effect.IsIdle (logOf deeds) := by
  induction recorded with
  | start => exact .nil
  | next before evolves current ih =>
    rw [logOf_append, logOf_singleton]
    exact ih.append (evolves.idle empty)

end Lives

/-! ## The counters of a session -/

section Counters

variable {setup : Setup α} {s : Session α}

/-- Any action of the caller alone counts what it logs. -/
theorem Performs.blocks {name : String} {action : Action α} {reply : Setup α → Reply α (Result α)}
    (performs : Performs s name action reply) (setup : Setup α) :
    (reply setup).session.blocks = s.blocks.afterAll (reply setup).effects := by
  cases performs with
  | clonedQueue found owner new =>
    unfold Session.cloneQueue
    dsimp only
    cases (Ring.duplicate setup.kind _).outcome <;> rfl
  | handedOver found consumer values pops =>
    unfold Session.pushFromThread
    repeat' split
    all_goals rfl
  | _ => rfl

theorem beginEmplace_blocks (s : Session α) (name : String) (terms : Terms) :
    (s.beginEmplace name terms).session.blocks = s.blocks.afterAll
      (s.beginEmplace name terms).effects := by
  unfold Session.beginEmplace
  cases s.find? (.name name) with
  | none => rfl
  | some place =>
    dsimp only
    split
    · rfl
    · split
      · rfl
      · cases terms <;> rfl
      · rfl
      · rfl

theorem endEmplace_blocks (setup : Setup α) (s : Session α) (push : Pending α)
    (made : Except Fault α) :
    let reply := s.endEmplace setup push.number push.terms push.policy push.evicted made
    reply.session.blocks = s.blocks.afterAll reply.effects := by
  unfold Session.endEmplace
  cases s.find? (.push push.number) with
  | none => rfl
  | some place => cases push.terms <;> exact (Blocks.afterAll_append _ _ _).symm

theorem create_blocks (setup : Setup α) (s : Session α) (name : String) (creation : Creation α) :
    (s.create setup name creation).session.blocks =
      s.blocks.afterAll (s.create setup name creation).effects := by
  rw [create_eq]
  cases creation.build setup with
  | error e => rfl
  | ok built =>
    obtain ⟨made, log⟩ := built
    cases made <;> rfl

/-- Each operation counts what it logs. -/
theorem Operation.run_blocks {operation : Operation α} {pending pending' : List (Pending α)}
    (ends : operation.Ends pending (operation.run setup s).result pending') :
    (operation.run setup s).session.blocks = s.blocks.afterAll (operation.run setup s).effects := by
  cases operation with
  | create name creation => exact create_blocks setup s name creation
  | act name action =>
    generalize replied : (Operation.run setup s (.act name action)).result = result at ends
    cases ends with
    | acted sequential finished => exact (performs s name action).blocks setup
  | enter name terms => exact beginEmplace_blocks s name terms
  | leave push made => exact endEmplace_blocks setup s push made

theorem History.blocks {first : Session α} {deeds : List (Deed α)} {pending : List (Pending α)}
    (history : History setup first deeds s pending) :
    s.blocks = first.blocks.afterAll (logOf deeds) := by
  induction history with
  | start => rfl
  | next operation before ends ih =>
    rw [logOf_append, logOf_singleton, Blocks.afterAll_append, ← ih]
    exact Operation.run_blocks ends

/-- Each operation takes the blocks that are expected of it, so all of them together do. -/
theorem allocations_eq_sum {deeds : List (Deed α)}
    (each : ∀ d ∈ deeds, (Effect.allocations d.reply.effects).length = (d.counts setup).total) :
    (Effect.allocations (logOf deeds)).length = (deeds.map (Deed.counts setup)).sum.total := by
  induction deeds with
  | nil => rfl
  | cons d deeds ih =>
    obtain ⟨first, others⟩ := List.forall_mem_cons.mp each
    rw [logOf_cons, Effect.allocations_append, List.length_append, first, ih others, List.map_cons,
      List.sum_cons, Counts.total_add]

end Counters

/-! ## The end of a session -/

section Closing

variable {setup : Setup α} {s : Session α}

/-- When no push is under way, dropping all handles ends all rings, also when entries break off. -/
theorem Sound.close_ends (sound : s.Sound) (idle : s.pushes = 0) (setup : Setup α) :
    (s.close setup).session.channels = [] := by
  have closed : (s.close setup.droppable).session.channels = [] := (sound.close idle rfl).1
  exact (dropHandles_channels setup.kind setup.droppable.kind s.names s.channels).trans closed

/-- Dropping all handles lets lives evolve with what it logs, and takes no block. -/
theorem Sound.close_evolves (sound : s.Sound) {lives : List (Life α)}
    (current : lives.map Life.channel = s.channels) (setup : Setup α) :
    Follows setup.kind lives (s.close setup).effects 0 (s.close setup).session.channels ∧
      Effect.allocations (s.close setup).effects = [] := by
  obtain ⟨lives', gone, evolves, now⟩ := dropHandles_evolves setup.kind [] s.names current
    sound.consistent
  rw [List.append_nil, List.append_nil] at evolves
  exact ⟨⟨lives', gone, evolves, now⟩, (dropHandles_silent setup.kind s.names s.channels).2⟩

end Closing

/-! ## Main result -/

/-- What becomes of the blocks of a session. -/
structure BlocksAccounted (setup : Setup α) (deeds : List (Deed α)) (s : Session α)
    (pending : List (Pending α)) : Prop where
  -- A ring lives as long as it has a handle, and has one block all the time.
  handles : ∀ c ∈ s.channels, c.handles ≠ []
  live : setup.kind.zeroSized = false → s.blocks.live = s.channels.length
  -- Blocks are taken by rings that are built or spoiled by a clone, and by those that grow or are
  -- cleared.
  each : setup.kind.zeroSized = false →
    ∀ d ∈ deeds, (Effect.allocations d.reply.effects).length = (d.counts setup).total
  total : setup.kind.zeroSized = false → s.blocks.total = (deeds.map (Deed.counts setup)).sum.total
  -- Only blocks that are in use are given back.
  strict : Uses (logOf deeds) 0 (blocksOf setup.kind s.channels)
  -- The same for each ring by itself; one that is gone has given back its block.
  rings : ∃ lives gone, Recorded setup.kind deeds lives gone ∧ lives.map Life.channel = s.channels ∧
    (logOf deeds).Perm (lives.flatMap Life.log ++ gone.flatten) ∧
    (∀ life ∈ lives, life.log.Sublist (logOf deeds) ∧
      Uses life.log 0 (setup.kind.blocksFor life.channel.ring.capacity)) ∧
    ∀ rest ∈ gone, rest.Sublist (logOf deeds) ∧ Uses rest 0 0
  -- When all handles are dropped, all blocks that were ever taken have been given back, each once
  -- and as it was.
  closed : pending = [] → (s.close setup).session.channels = [] ∧
    (s.close setup).session.blocks = ⟨0, s.blocks.total⟩ ∧
      Uses (logOf deeds ++ (s.close setup).effects) 0 0 ∧
    (Effect.allocations (logOf deeds ++ (s.close setup).effects)).Perm
      (Effect.releases (logOf deeds ++ (s.close setup).effects))
  -- Entries without content need no allocator.
  idle : setup.kind.zeroSized = true → Effect.IsIdle (logOf deeds) ∧
    Effect.IsIdle (s.close setup).effects

/-- Whatever operations run, also those inside of constructors, and whatever clones and drops fail
on the way, all blocks are accounted for. -/
theorem blocks_accounted {setup : Setup α} {deeds : List (Deed α)} {s : Session α}
    {pending : List (Pending α)} (history : History setup .empty deeds s pending) :
    BlocksAccounted setup deeds s pending := by
  obtain ⟨sound, pushes, -⟩ := history.between .empty
  obtain ⟨⟨lives, gone, recorded, current⟩, accounted⟩ := history.recorded
  have counted := history.blocks
  have strict : Uses (logOf deeds) 0 (blocksOf setup.kind s.channels) := current ▸ recorded.uses
  have live : s.blocks.live = (blocksOf setup.kind s.channels).card := by
    rw [counted]
    exact Blocks.afterAll_live strict rfl
  obtain ⟨⟨after, later, closing, closed⟩, takes⟩ := sound.close_evolves current setup
  have uses := closing.uses
  rw [current, closed] at uses
  have each (sized : setup.kind.zeroSized = false) (d : Deed α) (member : d ∈ deeds) :
      (Effect.allocations d.reply.effects).length = (d.counts setup).total := by
    obtain ⟨_, made⟩ := accounted d member
    exact made.blocks sized
  refine ⟨?_, ?_, each, ?_, strict, ?_, ?_, fun empty => ⟨recorded.idle empty, closing.idle empty⟩⟩
  · intro c member unreached
    exact (sound.consistent.each c member).reached (by rw [Channel.keys, unreached]; rfl)
  · intro sized
    rw [live, card_blocksOf sized]
  · intro sized
    rw [counted, Blocks.afterAll_total, allocations_eq_sum (each sized)]
    exact Nat.zero_add _
  · obtain ⟨alive, complete⟩ := recorded.each (blocks_last setup.kind)
    obtain ⟨inOrder, inOrder'⟩ := recorded.ordered
    exact ⟨lives, gone, recorded, current, recorded.partition,
      fun life member => ⟨inOrder life member, alive life member⟩,
      fun rest member => ⟨inOrder' rest member, complete rest member⟩⟩
  · rintro rfl
    have none_left := sound.close_ends pushes setup
    rw [none_left] at uses
    have whole : Uses (logOf deeds ++ (s.close setup).effects) 0 0 := strict.append uses
    have balance := whole.balance
    rw [zero_add, zero_add, Multiset.coe_eq_coe] at balance
    refine ⟨none_left, ?_, whole, balance⟩
    have free : (s.blocks.afterAll (s.close setup).effects).live = 0 :=
      Blocks.afterAll_live uses live
    have total : (s.blocks.afterAll (s.close setup).effects).total = s.blocks.total := by
      rw [Blocks.afterAll_total, takes]
      rfl
    change s.blocks.afterAll (s.close setup).effects = _
    rw [← free, ← total]

/-- One queue grows, is cloned inside a constructor, cleared and split, and another one could not be
filled. Two of five blocks are left. -/
theorem blocks_accounted_of_two_queues :
    let setup : Setup Nat :=
      ⟨⟨8, .calling fun _ a => if a = 0 then .error (.cloneFailed "0") else .ok a, none⟩,
        none, .endless⟩
    let steps : List (Step Nat) :=
      [.create "q" (.queue (.ofCapacity 1)), .create "r" (.queue (.ofCapacity 0)),
        .act "q" (.push (.asked .reject) 7), .act "q" (.reserve 4),
          .create "r" (.queue (.filled 3 0)),
        .emplace "q" (.asked .overwrite) [.act "q" (.clone "p")] (.ok 8), .act "q" .clear,
        .act "q" (.split "tx" "rx"), .act "rx" .drop]
    let s := (Step.runAll setup steps .empty).1
    s.blocks = ⟨2, 5⟩ ∧ ∃ deeds, History setup .empty deeds s [] ∧
      BlocksAccounted setup deeds s [] := by
  intro setup steps s
  have sequential : Step.AreSequential steps :=
    ⟨trivial, trivial, rfl, rfl, trivial, ⟨rfl, trivial⟩, rfl, rfl, rfl, trivial⟩
  have finished : (Step.runAll setup steps .empty).2.any Answer.isWaiting = false := by
    decide +kernel
  have counted : s.blocks = ⟨2, 5⟩ := by decide +kernel
  obtain ⟨deeds, history, -⟩ := Step.runAll_history steps .empty [] [] .start sequential finished
  exact ⟨counted, deeds, history, blocks_accounted history⟩

end RingQueue.Session
