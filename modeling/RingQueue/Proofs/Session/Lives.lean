import RingQueue.Proofs.Session.Accounts

/-!
The lives of rings.

Beside the channels of a session stand the lives of their rings: with how many slots a ring was
built, what was logged of it since then, and how many of its entries made way for others. `Evolves`
says how lives go on, begin and end; a ring keeps its life when its handles change. Every operation
lets them evolve with what it logs, and logs what is expected of it (`Between.accounted`).
-/
namespace RingQueue.Session

variable {α β : Type}

/-- A ring that is alive, with its channel. -/
structure Life (α : Type) where
  channel : Channel α
  -- The number of slots with which it was built.
  born : Nat
  -- What was done on the side, from its construction on.
  log : List (Effect α)
  -- The number of entries that made way for others.
  evictions : Nat

/-- The life goes on with another ring after a call on it. -/
def Life.turned (life : Life α) (ring : Ring α) (log : List (Effect α))
    (evictions : Nat) : Life α where
  channel := { life.channel with ring }
  born := life.born
  log := life.log ++ log
  evictions := life.evictions + evictions

/-- The life goes on with other handles. -/
def Life.reached (life : Life α) (handles : List Handle) : Life α :=
  { life with channel := { life.channel with handles } }

/-- The life of a ring that has just been built. -/
def Life.begun (c : Channel α) (log : List (Effect α)) : Life α := ⟨c, c.ring.capacity, log, 0⟩

/-- How lives go on while something is logged and so many entries are evicted. The last argument
holds the whole logs of the rings that have come to their end, or to nothing. -/
inductive Evolves (k : EntryKind α) :
    List (Life α) → List (Effect α) → Nat → List (Life α) → List (List (Effect α)) → Prop where
  | stays (lives : List (Life α)) : Evolves k lives [] 0 lives []
  | turns (before after : List (Life α)) {life : Life α} {ring : Ring α} {log : List (Effect α)}
      {evictions : Nat} (turn : life.channel.ring.Turn k log ring evictions) :
      Evolves k (before ++ life :: after) log evictions
        (before ++ life.turned ring log evictions :: after) []
  | rehandled (before after : List (Life α)) (life : Life α) (handles : List Handle) :
      Evolves k (before ++ life :: after) [] 0 (before ++ life.reached handles :: after) []
  | moves (before after : List (Life α)) (life : Life α) (handles : List Handle) :
      Evolves k (before ++ life :: after) [] 0 (before ++ after ++ [life.reached handles]) []
  | begins (lives : List (Life α)) {c : Channel α} {log : List (Effect α)}
      (birth : Ring.Birth k c.ring.capacity log) :
      Evolves k lives log 0 (lives ++ [.begun c log]) []
  | fails (lives : List (Life α)) {log : List (Effect α)} (still : Ring.Stillbirth k log) :
      Evolves k lives log 0 lives [log]
  | ends (before after : List (Life α)) (life : Life α) :
      Evolves k (before ++ life :: after) (life.channel.ring.release k).2 0 (before ++ after)
        [life.log ++ (life.channel.ring.release k).2]
  | trans {lives between lives' : List (Life α)} {log log' : List (Effect α)} {m n : Nat}
      {gone gone' : List (List (Effect α))} (first : Evolves k lives log m between gone)
      (second : Evolves k between log' n lives' gone') :
      Evolves k lives (log ++ log') (m + n) lives' (gone ++ gone')

/-- The lives evolve to those of the given channels. -/
def Follows (k : EntryKind α) (lives : List (Life α)) (log : List (Effect α)) (evictions : Nat)
    (channels : List (Channel α)) : Prop :=
  ∃ lives' gone, Evolves k lives log evictions lives' gone ∧ lives'.map Life.channel = channels

/-! ## Evolution of channels -/

section Channels

variable {k : EntryKind α} {lives rest : List (Life α)} {key : Key}
  {channels before after : List (Channel α)} {c : Channel α}

theorem Follows.stays (current : lives.map Life.channel = channels) :
    Follows k lives [] 0 channels :=
  ⟨lives, [], .stays lives, current⟩

/-- The life of the ring behind a key. -/
theorem Located.life (place : Located key channels before c after)
    (current : lives.map Life.channel = channels) :
    ∃ earlier life later, lives = earlier ++ life :: later ∧ earlier.map Life.channel = before ∧
      life.channel = c ∧ later.map Life.channel = after := by
  rw [place.split] at current
  obtain ⟨earlier, others, rfl, first, tail⟩ := List.map_eq_append_iff.mp current
  obtain ⟨life, later, rfl, here, last⟩ := List.map_eq_cons_iff.mp tail
  exact ⟨earlier, life, later, rfl, first, here, last⟩

/-- A call on the ring behind a key. -/
theorem Located.turns (place : Located key channels before c after)
    (current : lives.map Life.channel = channels) {ring : Ring α} {log : List (Effect α)}
    {evictions : Nat} (turn : c.ring.Turn k log ring evictions) :
    Follows k lives log evictions (Session.setRing key ring channels) := by
  obtain ⟨earlier, life, later, rfl, first, rfl, last⟩ := place.life current
  refine ⟨_, [], .turns earlier later turn, ?_⟩
  rw [place.setRing, List.map_append, List.map_cons, first, last]
  rfl

/-- Giving up a key may end the life of a ring. Lives behind those at hand do not count. -/
theorem dropHandle_evolves (k : EntryKind α) (key : Key) (rest : List (Life α))
    (current : lives.map Life.channel = channels)
    (distinct : (keysOf channels).Nodup) :
    ∃ lives' gone, Evolves k (lives ++ rest) (dropHandle k key channels).effects 0
      (lives' ++ rest) gone ∧
      lives'.map Life.channel = (dropHandle k key channels).channels := by
  by_cases reached : key ∈ keysOf channels
  · obtain ⟨before, c, after, place⟩ := exists_located distinct reached
    obtain ⟨earlier, life, later, rfl, first, rfl, last⟩ := place.life current
    rw [place.dropHandle]
    split
    · have ended := Evolves.ends (k := k) earlier (later ++ rest) life
      rw [← List.append_assoc] at ended
      refine ⟨earlier ++ later, [life.log ++ (life.channel.ring.release k).2], ?_,
        by rw [List.map_append, first, last]⟩
      rw [List.append_assoc earlier (life :: later)]
      exact ended
    · have rehandled := Evolves.rehandled (k := k) earlier (later ++ rest) life
        (life.channel.without key)
      refine ⟨earlier ++ life.reached (life.channel.without key) :: later, [], ?_, ?_⟩
      · rw [List.append_assoc, List.append_assoc]
        exact rehandled
      · rw [List.map_append, List.map_cons, first, last]
        rfl
  · rw [dropHandle_of_not_mem k reached]
    exact ⟨lives, [], .stays _, current⟩

theorem dropHandles_evolves (k : EntryKind α) (rest : List (Life α)) (names : List String)
    (current : lives.map Life.channel = channels)
    (consistent : Consistent channels) :
    ∃ lives' gone, Evolves k (lives ++ rest) (dropHandles k names channels).effects 0
      (lives' ++ rest) gone ∧
      lives'.map Life.channel = (dropHandles k names channels).channels := by
  induction names generalizing lives channels with
  | nil => exact ⟨lives, [], .stays _, current⟩
  | cons name names ih =>
    obtain ⟨between, gone, first, now⟩ :=
      dropHandle_evolves k (.name name) rest current consistent.distinct
    have settled := ((consistent.but_name name).dropHandle (k := .plain) rfl).consistent
    rw [← dropHandle_channels k] at settled
    obtain ⟨lives', others, later, last⟩ := ih now settled
    exact ⟨lives', _, first.trans later, last⟩

end Channels

/-! ## What goes unreported -/

theorem dropHandle_silent (k : EntryKind α) (key : Key) (channels : List (Channel α)) :
    Effect.events (dropHandle k key channels).effects = [] ∧
      Effect.allocations (dropHandle k key channels).effects = [] := by
  rcases dropHandle_effects k key channels with none | ⟨r, released⟩
  · rw [none]
    exact ⟨rfl, rfl⟩
  · simp [released, Ring.release]

theorem dropHandles_silent (k : EntryKind α) (names : List String) (channels : List (Channel α)) :
    Effect.events (dropHandles k names channels).effects = [] ∧
      Effect.allocations (dropHandles k names channels).effects = [] := by
  induction names generalizing channels with
  | nil => exact ⟨rfl, rfl⟩
  | cons name names ih =>
    obtain ⟨events, blocks⟩ := dropHandle_silent k (.name name) channels
    obtain ⟨others, blocks'⟩ := ih (dropHandle k (.name name) channels).channels
    simp [dropHandles, events, blocks, others, blocks']

/-! ## Single operations -/

/-- An operation lets lives evolve with what it logs, reports what is expected of it, and takes as
many blocks as are expected. -/
structure Accounted (setup : Setup α) (d : Deed α) (lives : List (Life α)) : Prop where
  follows : Follows setup.kind lives d.reply.effects d.evictions d.reply.session.channels
  events : Effect.events d.reply.effects = d.events setup
  blocks : setup.kind.zeroSized = false →
    (Effect.allocations d.reply.effects).length = (d.counts setup).total

theorem Located.findChannel {key : Key} {channels before after : List (Channel α)} {c : Channel α}
    (place : Located key channels before c after) :
    ∃ h, findChannel key channels = some (c, h) := by
  have elsewhere : before.findSome? (fun c => (c.handle? key).map fun h => (c, h)) = none := by
    rw [List.findSome?_eq_none_iff]
    intro other member
    have unreached := isReached_of_not_mem place.not_before member
    simpa [Channel.isReached] using unreached
  obtain ⟨h, here⟩ := Option.isSome_iff_exists.mp ((c.isReached_iff key).mpr place.here)
  refine ⟨h, ?_⟩
  rw [place.split, Session.findChannel, List.findSome?_append, elsewhere, List.findSome?_cons, here]
  rfl

theorem Located.ringBehind {key : Key} {channels before after : List (Channel α)} {c : Channel α}
    (place : Located key channels before c after) {s : Session α} (current : s.channels = channels)
    (other : Ring α) : s.ringBehind key other = c.ring := by
  obtain ⟨h, found⟩ := place.findChannel
  simp only [Session.ringBehind, Session.find?, current, found]
  rfl

section Operations

variable {setup : Setup α} {s : Session α} {lives : List (Life α)} {name : String}
  {action : Action α}

/-- What an action is accounted for by. -/
theorem accounted_act {c : Channel α} {h : Handle} {reply : Reply α (Result α)}
    (found : s.find? (.name name) = some (c, h))
    (follows : Follows setup.kind lives reply.effects
      (action.evictions c reply.result (reply.session.ringBehind (.name name) c.ring))
      reply.session.channels)
    (events : Effect.events reply.effects = action.events setup.kind c h.role
      (reply.session.ringBehind (.name name) c.ring) reply.result)
    (blocks : setup.kind.zeroSized = false → (Effect.allocations reply.effects).length =
      (action.counts setup.kind c h.role (reply.session.ringBehind (.name name) c.ring)
        reply.result).total) :
    Accounted setup ⟨s, .act name action, reply.ended⟩ lives := by
  refine ⟨?_, ?_, ?_⟩
  · simp only [Deed.evictions, Deed.place, Deed.after, Reply.ended, found]
    exact follows
  · simp only [Deed.events, Deed.place, Deed.after, Reply.ended, found]
    exact events
  · simp only [Deed.counts, Deed.place, Deed.after, Reply.ended, found]
    exact blocks

/-- An action under a name that nobody has. -/
theorem accounted_nobody (current : lives.map Life.channel = s.channels)
    (found : s.find? (.name name) = none) (result : Result α) :
    Accounted setup ⟨s, .act name action, (s.answer result).ended⟩ lives := by
  refine ⟨?_, ?_, fun _ => ?_⟩
  · simp only [Deed.evictions, Deed.place, found]
    exact .stays current
  · simp only [Deed.events, Deed.place, found]
    rfl
  · simp only [Deed.counts, Deed.place, found]
    rfl

/-- An action that was refused. -/
theorem Sound.accounted_refused (sound : s.Sound) (current : lives.map Life.channel = s.channels)
    {c : Channel α} {h : Handle} (found : s.find? (.name name) = some (c, h)) {result : Result α}
    (refused : result.isRefused = true) :
    Accounted setup ⟨s, .act name action, (s.answer result).ended⟩ lives := by
  obtain ⟨before, after, place⟩ := located_of_findChannel sound.consistent.distinct found
  have same : (s.answer result).session.ringBehind (.name name) c.ring = c.ring :=
    place.ringBehind rfl _
  have nothing : action.stored c result = 0 := by
    have told : action.stored c result = result.stored := by
      unfold Action.stored
      split
      · cases refused
      · rfl
    rw [told]
    cases result with
    | exclusive outcome => cases outcome <;> first | rfl | cases refused
    | unavailable => rfl
    | _ => cases refused
  refine accounted_act found ?_ ?_ fun _ => ?_
  · rw [same]
    simp only [Action.evictions, Session.answer, nothing, Nat.add_zero, Nat.sub_self, ite_self]
    exact .stays current
  · simp [Session.answer, Action.events, refused]
  · simp [Session.answer, Action.counts, refused]

/-- An action that does nothing with a ring but look at it. -/
theorem accounted_plain {c : Channel α} {h : Handle} {reply : Reply α (Result α)}
    (found : s.find? (.name name) = some (c, h))
    (follows : Follows setup.kind lives reply.effects 0 reply.session.channels)
    (silent : Effect.events reply.effects = [] ∧ Effect.allocations reply.effects = [])
    (plain : action.IsPlain setup.kind c h.role) (pops : action.isPush = false)
    (timely : action.timesOut reply.result = false) :
    Accounted setup ⟨s, .act name action, reply.ended⟩ lives := by
  have none_evicted (after : Ring α) : action.evictions c reply.result after = 0 := by
    simp [Action.evictions, pops]
  refine accounted_act found ?_ ?_ fun _ => ?_
  · rwa [none_evicted]
  · rw [silent.1]
    cases refused : reply.result.isRefused with
    | true => simp [Action.events, refused]
    | false =>
      rw [plain.events refused, timely, none_evicted]
      rfl
  · rw [silent.2, plain.counts]
    rfl

/-- An action that is a call on the ring of its handle. -/
theorem Sound.accounted_called (sound : s.Sound) (current : lives.map Life.channel = s.channels)
    {c : Channel α} {h : Handle} {made : Call α (Result α)}
    (found : s.find? (.name name) = some (c, h))
    (offered : action.isOffered h.role c.policy.isSome = true)
    (free : action.needsAll = true → h.keptBy = []) (call : action.call? setup c h.role = some made)
    (finished : resultOfCall made ≠ .waiting) :
    Accounted setup ⟨s, .act name action, (s.call (.name name) made id).ended⟩ lives := by
  obtain ⟨before, after, place⟩ := located_of_findChannel sound.consistent.distinct found
  obtain ⟨limit, entries, holds⟩ := (sound.consistent.each c place.mem).rest
  have meets := action.call?_meets holds
    (sound.alone_of_needsAll found offered free call) call (outcome_ne_waiting finished)
  have result : (s.call (.name name) made id).result = resultOfCall made := by
    obtain ⟨outcome, ring, effects⟩ := made
    cases outcome <;> rfl
  have replaced : Located (.name name) (before ++ { c with ring := made.ring } :: after) before
    { c with ring := made.ring } after := place.replaced rfl
  have ring : (s.call (.name name) made id).session.ringBehind (.name name) c.ring = made.ring :=
    replaced.ringBehind (place.setRing made.ring) _
  refine accounted_act found ?_ ?_ fun sized => ?_
  · rw [result, ring]
    exact place.turns current meets.turn
  · rw [result, ring]
    exact meets.events
  · rw [result, ring]
    exact meets.blocks sized

/-- A handle that is given up. -/
theorem Sound.accounted_dropped (sound : s.Sound) (current : lives.map Life.channel = s.channels)
    {c : Channel α} {h : Handle} (found : s.find? (.name name) = some (c, h)) :
    Accounted setup ⟨s, .act name .drop, (Session.drop setup s name).ended⟩ lives := by
  obtain ⟨lives', gone, evolves, now⟩ := dropHandle_evolves setup.kind (.name name) [] current
    sound.consistent.distinct
  rw [List.append_nil, List.append_nil] at evolves
  refine accounted_plain found ⟨lives', gone, evolves, now⟩ (dropHandle_silent setup.kind _ _)
    ⟨rfl, rfl, rfl⟩ rfl ?_
  rfl

/-- The channel behind a name is moved to the end, with other handles, once the old handles of their
names are given up. -/
theorem Located.moves {key : Key} {before after : List (Channel α)} {c : Channel α}
    (place : Located key s.channels before c after) (sound : s.Sound)
    (current : lives.map Life.channel = s.channels) (k : EntryKind α) (names : List String)
    (handles : List Handle) :
    Follows k lives (dropHandles k names (before ++ after)).effects 0
      ((dropHandles k names (before ++ after)).channels ++ [{ c with handles }]) := by
  obtain ⟨earlier, life, later, rfl, first, rfl, last⟩ := place.life current
  have part : (before ++ after).Sublist s.channels := by
    rw [place.split]
    exact (List.sublist_cons_self _ after).append_left before
  obtain ⟨lives', gone, evolves, now⟩ := dropHandles_evolves k [life.reached handles] names
    (by rw [List.map_append, first, last] : (earlier ++ later).map Life.channel = before ++ after)
    (sound.consistent.sublist part)
  refine ⟨_, _, (Evolves.moves earlier later life handles).trans evolves, ?_⟩
  rw [List.map_append, now]
  rfl

theorem Sound.accounted_split (sound : s.Sound) (current : lives.map Life.channel = s.channels)
    {c : Channel α} {h : Handle} (found : s.find? (.name name) = some (c, h))
    (producer consumer : String) :
    Accounted setup ⟨s, .act name (.split producer consumer),
      (Session.split setup s name producer consumer c).ended⟩ lives := by
  obtain ⟨before, after, place⟩ := located_of_findChannel sound.consistent.distinct found
  rw [Session.split, place.removeChannel]
  generalize (if producer = consumer then [Handle.named consumer .consumer]
    else [Handle.named producer .producer, Handle.named consumer .consumer]) = handles
  exact accounted_plain found (place.moves sound current setup.kind _ handles)
    (dropHandles_silent setup.kind _ _) ⟨rfl, rfl, rfl⟩ rfl rfl

theorem Sound.accounted_clonedProducer (sound : s.Sound)
    (current : lives.map Life.channel = s.channels) {c : Channel α} {h : Handle}
    (found : s.find? (.name name) = some (c, h)) (producer : h.role = .producer) (new : String) :
    Accounted setup ⟨s, .act name (.clone new), (Session.cloneProducer setup s name new c).ended⟩
      lives := by
  obtain ⟨before, after, place⟩ := located_of_findChannel sound.consistent.distinct found
  have moves := place.moves sound current setup.kind [new]
    (c.without (.name new) ++ [.named new .producer])
  simp only [dropHandles, List.append_nil] at moves
  rw [Session.cloneProducer, place.removeChannel]
  refine accounted_plain found moves (dropHandle_silent setup.kind _ _) ⟨rfl, rfl, ?_⟩ rfl rfl
  rw [producer]
  rfl

/-- A new ring begins its life, and takes over names. -/
theorem places_follows {channels : List (Channel α)} (consistent : Consistent channels)
    (current : lives.map Life.channel = channels) {k : EntryKind α} {new : Channel α}
    {log : List (Effect α)} (birth : Ring.Birth k new.ring.capacity log) (result : Result α) :
    Follows k lives (s.place k channels new log result).effects 0
      (s.place k channels new log result).session.channels := by
  obtain ⟨lives', gone, evolves, now⟩ := dropHandles_evolves k [.begun new log]
    (new.handles.filterMap (·.name)) current consistent
  refine ⟨_, _, (Evolves.begins lives birth).trans evolves, ?_⟩
  rw [List.map_append, now]
  rfl

theorem places_silent (s : Session α) (k : EntryKind α) (channels : List (Channel α))
    (new : Channel α) (log : List (Effect α)) (result : Result α) :
    Effect.events (s.place k channels new log result).effects = Effect.events log ∧
      Effect.allocations (s.place k channels new log result).effects = Effect.allocations log := by
  obtain ⟨events, blocks⟩ := dropHandles_silent k (new.handles.filterMap (·.name)) channels
  simp [place, events, blocks]

/-- A second queue, or a clone that failed. -/
theorem Sound.accounted_clonedQueue (sound : s.Sound)
    (current : lives.map Life.channel = s.channels) {c : Channel α} {h : Handle}
    (found : s.find? (.name name) = some (c, h)) (owner : h.role = .owner) (new : String)
    (finished : (Session.cloneQueue setup s name new c).result ≠ .waiting) :
    Accounted setup ⟨s, .act name (.clone new), (Session.cloneQueue setup s name new c).ended⟩
      lives := by
  obtain ⟨before, after, at_⟩ := located_of_findChannel sound.consistent.distinct found
  obtain ⟨limit, entries, holds⟩ := (sound.consistent.each c at_.mem).rest
  obtain ⟨same, logs⟩ := holds.duplicate_logs setup.kind
  -- A second queue was made when there is a copy.
  have copies {copy : Ring α} (ended : (c.ring.duplicate setup.kind).outcome = .returned copy) :
      Action.duplicates setup.kind (.clone new) c h.role = true := by
    unfold Action.duplicates
    rw [owner, ended]
  have fails {fault : Fault} (ended : (c.ring.duplicate setup.kind).outcome = .aborted fault) :
      Action.duplicates setup.kind (.clone new) c h.role = false := by
    unfold Action.duplicates
    rw [owner, ended]
  simp only [Session.cloneQueue, same, at_.setRing_self] at finished ⊢
  generalize c.ring.duplicate setup.kind = made at copies fails finished logs ⊢
  obtain ⟨outcome, ring, effects⟩ := made
  cases outcome with
  | returned copy =>
    obtain ⟨capacity, birth, announced⟩ := logs
    have duplicates := copies rfl
    have blocks := birth.blocks
    rw [← capacity] at birth
    obtain ⟨reports, takes⟩ := places_silent s setup.kind s.channels
      ⟨copy, c.policy, [.named new .owner]⟩ effects .done
    have accepted : (s.place setup.kind s.channels ⟨copy, c.policy, [.named new .owner]⟩ effects
        .done).result.isRefused = false := by
      simp only [Session.place, resultOf]
      split <;> rfl
    refine accounted_act found ?_ ?_ fun sized => ?_
    · exact places_follows sound.consistent current birth .done
    · rw [reports, announced]
      simp [Action.events, accepted, duplicates, Action.isClear, Action.isReserve]
    · rw [takes, blocks]
      simp [Action.counts, accepted, duplicates, Action.isClear, Action.isReserve, Counts.total,
        EntryKind.blocksFor, sized]
  | aborted fault =>
    refine accounted_plain found ?_ ⟨logs.events, logs.allocations⟩ ⟨rfl, rfl, fails rfl⟩ rfl rfl
    exact at_.setRing_self ▸ at_.turns current (.quiet rfl logs)
  | waiting => exact absurd rfl finished

theorem Sound.accounted_performed (sound : s.Sound) (current : lives.map Life.channel = s.channels)
    {reply : Setup α → Reply α (Result α)} (performs : Performs s name action reply)
    (sequential : action.isSequential = true) (finished : (reply setup).result ≠ .waiting) :
    Accounted setup ⟨s, .act name action, (reply setup).ended⟩ lives := by
  cases performs with
  | refused refused =>
    cases found : s.find? (.name name) with
    | none => exact accounted_nobody current found _
    | some place => exact sound.accounted_refused current found refused
  | looked look stays =>
    cases found : s.find? (.name name) with
    | none => exact accounted_nobody current found _
    | some place =>
      cases action with
      | observe | describe | front | blocks | policy =>
        exact accounted_plain found (.stays current) ⟨rfl, rfl⟩ ⟨rfl, rfl, rfl⟩ rfl rfl
      | _ => cases look
  | called found offered free call =>
    refine sound.accounted_called current found offered free (call setup) ?_
    dsimp only at finished
    rwa [call_eq] at finished
  | dropped found => exact sound.accounted_dropped current found
  | split found owner free producer consumer =>
    exact sound.accounted_split current found producer consumer
  | clonedProducer found producer new =>
    exact sound.accounted_clonedProducer current found producer new
  | clonedQueue found owner new =>
    exact sound.accounted_clonedQueue current found owner new finished
  | handedOver => cases sequential

theorem Sound.accounted_create (sound : s.Sound) (current : lives.map Life.channel = s.channels)
    (creation : Creation α) :
    Accounted setup ⟨s, .create name creation, (s.create setup name creation).ended⟩ lives := by
  rw [create_eq]
  cases made : creation.build setup with
  | error e =>
    refine ⟨.stays current, ?_, fun _ => ?_⟩
    · simp [Deed.events, Creation.events, made, Reply.ended, Session.answer]
    · simp [Deed.counts, Creation.counts, made, Reply.ended, Session.answer]
  | ok built =>
    have builds := creation.builds setup made
    cases builds with
    | rejected bad still events blocks =>
      refine ⟨⟨lives, _, .fails lives still, current⟩, ?_, fun _ => ?_⟩
      · simp only [Deed.events, Creation.events, made]
        exact events
      · simp only [Deed.counts, Creation.counts, made, if_neg bad]
        exact congrArg List.length blocks
    | aborted good silent copies a =>
      refine ⟨⟨lives, _, .fails lives (.filling creation.capacity copies a), current⟩, ?_,
        fun sized => ?_⟩
      · simp only [Deed.events, Creation.events, made, silent]
        change Effect.events (_ ++ _ ++ _ ++ _) = []
        simp
      · simp only [Deed.counts, Creation.counts, made, if_pos good]
        change (Effect.allocations (_ ++ _ ++ _ ++ _)).length = _
        simp [EntryKind.blocksFor, sized, Counts.total]
    | @built new log entries good holds birth events =>
      have blocks := birth.blocks
      rw [← holds.capacity] at birth
      obtain ⟨reports, takes⟩ := places_silent s setup.kind s.channels
        ⟨new.1, new.2, [.named name .owner]⟩ log creation.success
      refine ⟨places_follows sound.consistent current birth creation.success, ?_, fun sized => ?_⟩
      · simp only [Deed.events, Creation.events, made]
        exact reports.trans events
      · simp only [Deed.counts, Creation.counts, made]
        refine (congrArg List.length (takes.trans blocks)).trans ?_
        simp [EntryKind.blocksFor, sized, Counts.total]

/-- A forced push that lets no place into the ring changes nothing. -/
theorem Sound.accounted_unentered (sound : s.Sound) (current : lives.map Life.channel = s.channels)
    (terms : Terms) (result : Begun α) :
    Accounted setup ⟨s, .enter name terms, s.answer result⟩ lives := by
  have none_evicted : Deed.evictions ⟨s, .enter name terms, s.answer result⟩ = 0 := by
    simp only [Deed.evictions, Deed.place, Deed.after, Session.answer]
    cases found : s.find? (.name name) with
    | none => rfl
    | some reached =>
      obtain ⟨before, after, place⟩ := located_of_findChannel sound.consistent.distinct found
      simp only [place.ringBehind rfl, Nat.sub_self]
  refine ⟨?_, ?_, fun _ => ?_⟩
  · rw [none_evicted]
    exact .stays current
  · simp only [Deed.events, none_evicted]
    cases Deed.place ⟨s, .enter name terms, s.answer result⟩ <;> rfl
  · simp only [Deed.counts]
    rfl

/-- While a forced push is open, its channel is still found behind the name it was made through. -/
theorem Located.open_push {before after channels : List (Channel α)} {c : Channel α}
    (place : Located (.name name) channels before c after) (distinct : (keysOf channels).Nodup)
    (push : Nat) (ring : Ring α) :
    Located (.name name) (before ++ c.entered name push ring :: after) before
      (c.entered name push ring) after := by
  have within : c.keys.Nodup := (List.nodup_flatMap.mp distinct).1 c place.mem
  have keys : (c.entered name push ring).keys.Perm (.push push :: c.keys) :=
    handleKeys_kept c.handles within place.here push
  exact ⟨rfl, keys.mem_iff.mpr (List.mem_cons_of_mem _ place.here), place.not_before,
    place.not_after⟩

/-- A push that enters may evict an entry, and then keeps its handle. -/
theorem Sound.accounted_enter (sound : s.Sound) (current : lives.map Life.channel = s.channels)
    (terms : Terms) (finished : (s.beginEmplace name terms).result ≠ .ended .waiting) :
    Accounted setup ⟨s, .enter name terms, s.beginEmplace name terms⟩ lives := by
  have beginning := sound.beginning name terms
  generalize s.beginEmplace name terms = begun at beginning finished
  cases beginning with
  | refused => exact sound.accounted_unentered current terms _
  | denied => exact sound.accounted_unentered current terms _
  | waiting => exact absurd rfl finished
  | @granted c h before after capacity entries evicted ring effects found place holds requested =>
    obtain ⟨n, evicts⟩ := requested.evicts holds (by rintro ⟨⟩) setup.kind
    have entered := place.open_push sound.consistent.distinct s.pushes ring
    have none_missing : c.ring.unread.length - ring.unread.length = n := by
      have missing := evicts.missing
      change _ = ring.unread.length + n at missing
      omega
    obtain ⟨earlier, life, later, rfl, first, rfl, last⟩ := place.life current
    have turned := Evolves.turns earlier later evicts.logs.turn
    have kept := Evolves.rehandled (k := setup.kind) earlier later
      (life.turned ring effects n) (life.channel.entered name s.pushes ring).handles
    have evolves := turned.trans kept
    rw [List.append_nil] at evolves
    have count : Deed.evictions ⟨s, .enter name terms,
        ⟨⟨before ++ life.channel.entered name s.pushes ring :: after, s.blocks.afterAll effects,
          s.pushes + 1⟩,
          .granted s.pushes (terms.policy life.channel) evicted, effects⟩⟩ = n := by
      simp only [Deed.evictions, Deed.place, Deed.after, found]
      rw [entered.ringBehind rfl]
      exact none_missing
    refine ⟨?_, ?_, fun _ => ?_⟩
    · rw [count]
      refine ⟨_, _, evolves, ?_⟩
      rw [List.map_append, List.map_cons, first, last]
      rfl
    · simp only [Deed.events, Deed.place, found, count]
      exact evicts.logs.events
    · exact congrArg List.length evicts.logs.blocks

/-- A call that reports nothing and takes no block, and then the end of a handle. -/
theorem Located.settles {key : Key} {before after : List (Channel α)} {c : Channel α}
    (place : Located key s.channels before c after) (sound : s.Sound)
    (current : lives.map Life.channel = s.channels) {k : EntryKind α} {ring : Ring α}
    {effects : List (Effect α)} (logs : c.ring.Logs k effects ring 0 [] []) :
    let dropped := Session.dropHandle k key (Session.setRing key ring s.channels)
    Follows k lives (effects ++ dropped.effects) 0 dropped.channels ∧
      Effect.events (effects ++ dropped.effects) = [] ∧
      Effect.allocations (effects ++ dropped.effects) = [] := by
  obtain ⟨between, gone, turned, now⟩ := place.turns current logs.turn
  have distinct : (keysOf (Session.setRing key ring s.channels)).Nodup := by
    rw [place.setRing, place.keysOf_ring]
    exact sound.consistent.distinct
  obtain ⟨lives', others, dropped, later⟩ := dropHandle_evolves k key [] now distinct
  obtain ⟨events, blocks⟩ := dropHandle_silent k key (Session.setRing key ring s.channels)
  rw [List.append_nil, List.append_nil] at dropped
  refine ⟨⟨lives', _, turned.trans dropped, later⟩, ?_, ?_⟩
  · simp [logs.events, events]
  · simp [logs.blocks, blocks]

/-- A push that leaves reports nothing. -/
theorem Sound.accounted_leave (sound : s.Sound) (current : lives.map Life.channel = s.channels)
    {push : Pending α} (last : s.pushes = push.number + 1) (made : Except Fault α) :
    Accounted setup ⟨s, .leave push made,
      (s.endEmplace setup push.number push.terms push.policy push.evicted made).ended⟩ lives := by
  have kept : .push push.number ∈ keysOf s.channels := (sound.under_way push.number).mpr (by omega)
  obtain ⟨⟨c, h⟩, found⟩ := findChannel_isSome kept
  obtain ⟨before, after, place⟩ := located_of_findChannel sound.consistent.distinct found
  obtain ⟨capacity, entries, holds⟩ := (sound.consistent.each c place.mem).rest
  have distinct : c.keys.Nodup := (List.nodup_flatMap.mp sound.consistent.distinct).1 c place.mem
  rw [← pushCount_without distinct place.here] at holds
  have found : s.find? (.push push.number) = some (c, h) := found
  obtain ⟨plain, policed⟩ := holds.settle_logs setup.kind push.evicted made
  unfold Session.endEmplace
  simp only [found]
  cases push.terms with
  | asked policy =>
    obtain ⟨follows, events, blocks⟩ := place.settles sound current plain
    exact ⟨follows, events, fun _ => congrArg List.length blocks⟩
  | configured =>
    obtain ⟨follows, events, blocks⟩ := place.settles sound current policed
    exact ⟨follows, events, fun _ => congrArg List.length blocks⟩

end Operations

/-- Every operation is accounted for. -/
theorem Between.accounted {s : Session α} {pending pending' : List (Pending α)}
    (between : Between s pending) {setup : Setup α} {operation : Operation α}
    (ends : operation.Ends pending (operation.run setup s).result pending') {lives : List (Life α)}
    (current : lives.map Life.channel = s.channels) :
    Accounted setup ⟨s, operation, operation.run setup s⟩ lives := by
  obtain ⟨sound, pushes, stacked⟩ := between
  cases operation with
  | create name creation => exact sound.accounted_create current creation
  | act name action =>
    generalize replied : (Operation.run setup s (.act name action)).result = result at ends
    cases ends with
    | acted sequential finished =>
      cases replied
      exact sound.accounted_performed current (performs s name action) sequential finished
  | enter name terms =>
    refine sound.accounted_enter current terms fun waits => ?_
    rw [show (Operation.run setup s (.enter name terms)).result = _ from waits] at ends
    cases ends with
    | turnedDown finished => exact finished rfl
  | leave push made =>
    cases ends with
    | left =>
      cases stacked with
      | cons number kind below =>
        exact sound.accounted_leave current (by simpa [number] using pushes) made

/-! ## Histories -/

/-- The lives of the rings after some operations on a session that began empty, and the whole logs
of those that have come to their end. -/
inductive Recorded (k : EntryKind α) :
    List (Deed α) → List (Life α) → List (List (Effect α)) → Prop where
  | start : Recorded k [] [] []
  | next {deeds : List (Deed α)} {lives lives' : List (Life α)}
      {gone gone' : List (List (Effect α))} {d : Deed α} (before : Recorded k deeds lives gone)
      (evolves : Evolves k lives d.reply.effects d.evictions lives' gone')
      (current : lives'.map Life.channel = d.reply.session.channels) :
      Recorded k (deeds ++ [d]) lives' (gone ++ gone')

/-- Every history is accounted for, operation by operation. -/
theorem History.recorded {setup : Setup α} {deeds : List (Deed α)} {s : Session α}
    {pending : List (Pending α)} (history : History setup .empty deeds s pending) :
    (∃ lives gone, Recorded setup.kind deeds lives gone ∧ lives.map Life.channel = s.channels) ∧
      ∀ d ∈ deeds, ∃ lives, Accounted setup d lives := by
  induction history with
  | start => exact ⟨⟨[], [], .start, rfl⟩, fun d member => absurd member List.not_mem_nil⟩
  | next operation before ends ih =>
    obtain ⟨⟨lives, gone, recorded, current⟩, earlier⟩ := ih
    have accounted := (before.between .empty).accounted ends current
    obtain ⟨lives', gone', evolves, now⟩ := accounted.follows
    have next := Recorded.next (d := ⟨_, operation, operation.run setup _⟩) recorded evolves now
    refine ⟨⟨lives', _, next, now⟩, ?_⟩
    intro d member
    rcases List.mem_append.mp member with old | newest
    · exact earlier d old
    · rw [List.mem_singleton.mp newest]
      exact ⟨lives, accounted⟩

/-- What holds of each ring that is alive, and of the log of each that has come to its end. -/
structure Lasting (k : EntryKind α) (alive : Life α → Prop) (ended : List (Effect α) → Prop) :
    Prop where
  turned : ∀ {life : Life α} {ring : Ring α} {log : List (Effect α)} {n : Nat},
    life.channel.ring.Turn k log ring n → alive life → alive (life.turned ring log n)
  reached : ∀ {life : Life α} {handles : List Handle}, alive life → alive (life.reached handles)
  begun : ∀ {c : Channel α} {log : List (Effect α)}, Ring.Birth k c.ring.capacity log →
    alive (.begun c log)
  failed : ∀ {log : List (Effect α)}, Ring.Stillbirth k log → ended log
  ended : ∀ {life : Life α}, alive life → ended (life.log ++ (life.channel.ring.release k).2)

section Lasting

variable {k : EntryKind α} {alive : Life α → Prop} {ended : List (Effect α) → Prop}
  {lives : List (Life α)} {gone : List (List (Effect α))}

/-- What a turn, a birth and an end keep is kept by all lives. -/
theorem Evolves.each (lasting : Lasting k alive ended) {lives' : List (Life α)}
    {log : List (Effect α)} {n : Nat} (evolves : Evolves k lives log n lives' gone)
    (before : ∀ life ∈ lives, alive life) :
    (∀ life ∈ lives', alive life) ∧ ∀ rest ∈ gone, ended rest := by
  induction evolves with
  | stays => exact ⟨before, nofun⟩
  | turns earlier later turn =>
    simp only [List.forall_mem_append, List.forall_mem_cons] at before ⊢
    exact ⟨⟨before.1, lasting.turned turn before.2.1, before.2.2⟩, nofun⟩
  | rehandled earlier later life handles =>
    simp only [List.forall_mem_append, List.forall_mem_cons] at before ⊢
    exact ⟨⟨before.1, lasting.reached before.2.1, before.2.2⟩, nofun⟩
  | moves earlier later life handles =>
    simp only [List.forall_mem_append, List.forall_mem_cons] at before ⊢
    exact ⟨⟨⟨before.1, before.2.2⟩, lasting.reached before.2.1, nofun⟩, nofun⟩
  | begins lives birth =>
    exact ⟨List.forall_mem_append.mpr ⟨before, List.forall_mem_singleton.mpr (lasting.begun birth)⟩,
      nofun⟩
  | fails lives still => exact ⟨before, List.forall_mem_singleton.mpr (lasting.failed still)⟩
  | ends earlier later life =>
    simp only [List.forall_mem_append, List.forall_mem_cons] at before
    exact ⟨List.forall_mem_append.mpr ⟨before.1, before.2.2⟩,
      List.forall_mem_singleton.mpr (lasting.ended before.2.1)⟩
  | trans first second ih ih' =>
    obtain ⟨between, finished⟩ := ih before
    obtain ⟨after, later⟩ := ih' between
    exact ⟨after, List.forall_mem_append.mpr ⟨finished, later⟩⟩

theorem Recorded.each (lasting : Lasting k alive ended) {deeds : List (Deed α)}
    (recorded : Recorded k deeds lives gone) :
    (∀ life ∈ lives, alive life) ∧ ∀ rest ∈ gone, ended rest := by
  induction recorded with
  | start => exact ⟨nofun, nofun⟩
  | next before evolves current ih =>
    obtain ⟨after, later⟩ := evolves.each lasting ih.1
    exact ⟨after, List.forall_mem_append.mpr ⟨ih.2, later⟩⟩

end Lasting

/-- What is logged is logged of one ring, alive or gone. -/
theorem Evolves.partition {k : EntryKind α} {lives lives' : List (Life α)} {log : List (Effect α)}
    {n : Nat} {gone : List (List (Effect α))} (evolves : Evolves k lives log n lives' gone) :
    (lives.flatMap Life.log ++ log).Perm (lives'.flatMap Life.log ++ gone.flatten) := by
  induction evolves with
  | stays => exact .refl _
  | turns before after turn =>
    simp only [List.flatMap_append, List.flatMap_cons, Life.turned, List.append_assoc,
      List.flatten_nil, List.append_nil]
    exact ((List.perm_append_comm).append_left _).append_left _
  | rehandled => simp [Life.reached]
  | moves before after life handles =>
    simp only [List.flatMap_append, List.flatMap_cons, List.flatMap_nil, Life.reached,
      List.append_assoc, List.flatten_nil, List.append_nil]
    exact (List.perm_append_comm).append_left _
  | begins lives birth =>
    simp [Life.begun]
  | fails lives still => simp
  | ends before after life =>
    simp only [List.flatMap_append, List.flatMap_cons, List.append_assoc, List.flatten_cons,
      List.flatten_nil, List.append_nil]
    refine List.Perm.append_left _ ?_
    rw [← List.append_assoc, ← List.append_assoc]
    exact (List.perm_append_comm).append_right _
  | trans first second ih ih' =>
    rw [← List.append_assoc, List.flatten_append]
    refine (ih.append_right _).trans ?_
    rw [List.append_assoc]
    refine ((List.perm_append_comm).append_left _).trans ?_
    rw [← List.append_assoc]
    refine (ih'.append_right _).trans ?_
    rw [List.append_assoc]
    exact (List.perm_append_comm).append_left _

theorem Recorded.partition {k : EntryKind α} {deeds : List (Deed α)} {lives : List (Life α)}
    {gone : List (List (Effect α))} (recorded : Recorded k deeds lives gone) :
    (logOf deeds).Perm (lives.flatMap Life.log ++ gone.flatten) := by
  induction recorded with
  | start => exact .refl _
  | @next deeds lives lives' gone gone' d before evolves current ih =>
    rw [logOf_append, logOf_singleton, List.flatten_append]
    refine (ih.append_right _).trans ?_
    rw [List.append_assoc]
    refine ((List.perm_append_comm).append_left _).trans ?_
    rw [← List.append_assoc]
    refine (evolves.partition.append_right _).trans ?_
    rw [List.append_assoc]
    exact (List.perm_append_comm).append_left _

/-- What stands in a log stands in a longer one. -/
theorem sublists_append {β γ : Type} {log : γ → List β} {xs : List γ} {all : List β}
    (ordered : ∀ x ∈ xs, (log x).Sublist all) (later : List β) : ∀ x ∈ xs,
    (log x).Sublist (all ++ later) :=
  fun x member => (ordered x member).trans (List.sublist_append_left all later)

/-- What is logged of one ring stands in the same order in the log of all. -/
theorem Evolves.ordered {k : EntryKind α} {lives lives' : List (Life α)} {log : List (Effect α)}
    {n : Nat} {gone : List (List (Effect α))} (evolves : Evolves k lives log n lives' gone)
    {all : List (Effect α)} (ordered : ∀ life ∈ lives, life.log.Sublist all) :
    (∀ life ∈ lives', life.log.Sublist (all ++ log)) ∧ ∀ rest ∈ gone,
      rest.Sublist (all ++ log) := by
  induction evolves generalizing all with
  | stays => exact ⟨sublists_append ordered [], nofun⟩
  | @turns before after life ring log n turn =>
    simp only [List.forall_mem_append, List.forall_mem_cons] at ordered ⊢
    obtain ⟨earlier, here, later⟩ := ordered
    exact ⟨⟨sublists_append earlier log, here.append_right log, sublists_append later log⟩, nofun⟩
  | rehandled before after life handles =>
    simp only [List.forall_mem_append, List.forall_mem_cons, List.append_nil] at ordered ⊢
    exact ⟨ordered, nofun⟩
  | moves before after life handles =>
    simp only [List.forall_mem_append, List.forall_mem_cons, List.append_nil] at ordered ⊢
    obtain ⟨earlier, here, later⟩ := ordered
    exact ⟨⟨⟨earlier, later⟩, here, nofun⟩, nofun⟩
  | begins lives birth =>
    refine ⟨List.forall_mem_append.mpr ⟨sublists_append ordered _, ?_⟩, nofun⟩
    exact List.forall_mem_singleton.mpr (List.sublist_append_right _ _)
  | fails lives still =>
    exact ⟨sublists_append ordered _, List.forall_mem_singleton.mpr (List.sublist_append_right _ _)⟩
  | ends before after life =>
    simp only [List.forall_mem_append, List.forall_mem_cons] at ordered
    obtain ⟨earlier, here, later⟩ := ordered
    refine ⟨?_, List.forall_mem_singleton.mpr (here.append_right _)⟩
    exact List.forall_mem_append.mpr ⟨sublists_append earlier _, sublists_append later _⟩
  | trans first second ih ih' =>
    obtain ⟨between, earlier⟩ := ih ordered
    obtain ⟨last, later⟩ := ih' between
    rw [← List.append_assoc]
    exact ⟨last, List.forall_mem_append.mpr ⟨sublists_append earlier _, later⟩⟩

theorem Recorded.ordered {k : EntryKind α} {deeds : List (Deed α)} {lives : List (Life α)}
    {gone : List (List (Effect α))} (recorded : Recorded k deeds lives gone) :
    (∀ life ∈ lives, life.log.Sublist (logOf deeds)) ∧ ∀ rest ∈ gone,
      rest.Sublist (logOf deeds) := by
  induction recorded with
  | start => exact ⟨nofun, nofun⟩
  | next before evolves current ih =>
    obtain ⟨lives, earlier⟩ := ih
    obtain ⟨now, later⟩ := evolves.ordered lives
    rw [logOf_append, logOf_singleton]
    exact ⟨now, List.forall_mem_append.mpr ⟨sublists_append earlier _, later⟩⟩

end RingQueue.Session
