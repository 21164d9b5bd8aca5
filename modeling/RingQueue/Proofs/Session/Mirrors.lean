import RingQueue.Proofs.Session.Handles
import RingQueue.Proofs.Session.Unsplit

/-!
A split queue beside the unsplit one.

Whatever is done through the handles is mirrored by the owner (`Mirrors`), who has the same ring all
the time; only giving up the last handle makes the owner give up the queue (`Releases`). Each kind
of operation takes one such step (`InStep.next`); when the queue is gone, nothing happens any more
(`late`).
-/
namespace RingQueue.Session

variable {α : Type}

/-! ## Mirrors -/

/-- What is done through a handle while the queue lasts, and what its owner does for the same. -/
inductive Mirrors (setup : Setup α) (q : String) : Deed α → List (Deed α) → Prop where
  | exchanged {d : Deed α} {os : List (Deed α)} {name : String} {c : Channel α} {h : Handle}
      {x : Exchange α} {xs : List (Exchange α)} {ring : Ring α}
      (found : d.before.find? (.name name) = some (c, h)) (asked : x.IsAskedBy name d)
      (echo : Echo setup c h.role x xs) (owner : List.Forall₂ (Exchange.IsAskedBy q) xs os)
      (handles : d.reply.session.channels = [{ c with ring }]) : Mirrors setup q d os
  -- Nobody has the name.
  | missing {d : Deed α} {name : String} {action : Action α} {result : Result α}
      (missing : d.before.find? (.name name) = none)
      (asked : (Exchange.mk action result []).IsAskedBy name d)
      (answer : result = .unavailable ∨ action = .observe ∧ result = .nothing)
      (same : d.reply.session = d.before) : Mirrors setup q d []
  -- A name is given up; the queue has other handles, or a push keeps this one.
  | dropped {d : Deed α} {name : String} {c : Channel α} {h : Handle}
      (found : d.before.find? (.name name) = some (c, h))
      (asked : (Exchange.mk .drop .done []).IsAskedBy name d)
      (handles : d.reply.session.channels = [{ c with handles := c.without (.name name) }]) :
        Mirrors setup q d []
  | cloned {d : Deed α} {name new : String} {c : Channel α} {h : Handle}
      (found : d.before.find? (.name name) = some (c, h)) (producer : h.role = .producer)
      (asked : (Exchange.mk (.clone new) .done []).IsAskedBy name d)
      (handles : d.reply.session.channels =
        [{ c with handles := c.without (.name new) ++ [.named new .producer] }]) :
          Mirrors setup q d []
  -- A push asks for room; if there is room, it keeps its handle until its constructor is done.
  | entered {d o : Deed α} {name : String} {terms : Terms} {c : Channel α} {h : Handle}
      {ring : Ring α} (found : d.before.find? (.name name) = some (c, h))
      (accepts : ¬ h.refuses c terms) (operation : d.operation = .enter name terms)
      (owner : o.operation = .enter q terms) (result : d.reply.result = o.reply.result)
      (effects : d.reply.effects = o.reply.effects)
      (handles : d.reply.session.channels = [{ c with ring }] ∨
        d.reply.session.channels = [c.entered name d.before.pushes ring]) : Mirrors setup q d [o]
  | turnedAway {d : Deed α} {name : String} {terms : Terms}
      (refuses : ∀ c h, d.before.find? (.name name) = some (c, h) → h.refuses c terms)
      (operation : d.operation = .enter name terms)
      (reply : d.reply = d.before.answer (.ended .unavailable)) :
      Mirrors setup q d []
  | left {d o : Deed α} {push : Pending α} {made : Except Fault α} {c : Channel α} {h : Handle}
      {ring : Ring α} (found : d.before.find? (.push push.number) = some (c, h))
      (operation : d.operation = .leave push made) (owner : o.operation = .leave push made)
      (result : d.reply.result = o.reply.result) (effects : d.reply.effects = o.reply.effects)
      (handles : d.reply.session.channels =
        [{ c with ring, handles := c.without (.push push.number) }]) :
      Mirrors setup q d [o]

/-- What the owner is asked to give up the queue. -/
def Exchange.release (k : EntryKind α) (ring : Ring α) : Exchange α :=
  ⟨.drop, resultOf (ring.release k).1 .done, (ring.release k).2⟩

/-- The last handle is given up, by its name or by the end of the last push that kept it; for the
same the owner gives up the queue. -/
inductive Releases (k : EntryKind α) (q : String) : Deed α → List (Deed α) → Prop where
  | dropped {d o : Deed α} {name : String} {c : Channel α} {h : Handle}
      (found : d.before.find? (.name name) = some (c, h)) (last : c.handles = [h])
      (asked : (Exchange.release k c.ring).IsAskedBy name d)
      (owner : (Exchange.release k c.ring).IsAskedBy q o)
      (order : c.ring.GoesInOrder k (c.ring.release k).1 (c.ring.release k).2)
      (gone : d.reply.session.channels = []) : Releases k q d [o]
  | left {d o o' : Deed α} {push : Pending α} {made : Except Fault α} {c : Channel α} {h : Handle}
      {ring : Ring α} {handles : List Handle} {result : Result α} {effects : List (Effect α)}
      (found : d.before.find? (.push push.number) = some (c, h)) (last : c.handles = [h])
      (operation : d.operation = .leave push made)
      (reply : d.reply.result = .ended (resultOf (ring.release k).1 result) ∧
        d.reply.effects = effects ++ (ring.release k).2)
      (ownerLeft : o.operation = .leave push made ∧ o.reply.result = .ended result ∧
        o.reply.effects = effects)
      (left : o.reply.session.channels = [⟨ring, c.policy, handles⟩])
      (owner : (Exchange.release k ring).IsAskedBy q o')
      (order : ring.GoesInOrder k (ring.release k).1 (ring.release k).2)
      (gone : d.reply.session.channels = []) :
      Releases k q d [o, o']

/-- A split queue beside the unsplit one, while both last and when both are gone. -/
inductive Paired (q : String) : Bool → Session α → Session α → Prop where
  | lasting {c : Channel α} {kept : List Nat} {blocks : Blocks} {pushes : Nat} (split : c.IsSplit) :
      Paired q true ⟨[c], blocks, pushes⟩ (unsplit q c.policy kept pushes c.ring blocks)
  | gone {blocks : Blocks} {pushes : Nat} : Paired q false ⟨[], blocks, pushes⟩ ⟨[], blocks, pushes⟩

/-- Nobody is left who could do anything. -/
structure Deed.IsLate (d : Deed α) : Prop where
  nobody : d.before.channels = []
  answer : d.reply = d.before.answer (.ended .unavailable) ∨
    d.reply = d.before.answer (.ended .nothing)

theorem Deed.IsLate.session {d : Deed α} (late : d.IsLate) : d.reply.session = d.before := by
  rcases late.answer with answer | answer <;> rw [answer] <;> rfl

/-- Deeds through handles, and what the owner does for them, while the queue lasts and when it is
gone. -/
inductive Mirrored (setup : Setup α) (q : String) : Bool → List (Deed α) →
    List (Deed α) → Prop where
  | start : Mirrored setup q true [] []
  | lasting {deeds owned os : List (Deed α)} {d : Deed α}
      (before : Mirrored setup q true deeds owned) (mirrors : Mirrors setup q d os) :
        Mirrored setup q true (deeds ++ [d]) (owned ++ os)
  | released {deeds owned os : List (Deed α)} {d : Deed α}
      (before : Mirrored setup q true deeds owned) (releases : Releases setup.kind q d os) :
        Mirrored setup q false (deeds ++ [d]) (owned ++ os)
  | late {deeds owned : List (Deed α)} {d : Deed α} (before : Mirrored setup q false deeds owned)
      (late : d.IsLate) :
      Mirrored setup q false (deeds ++ [d]) owned

/-- The operation makes no new queue. -/
def Operation.isThroughHandle : Operation α → Bool
  | .create _ _ => false
  | _ => true

/-- The history of the owner goes on for a deed. -/
def Advances (setup : Setup α) (q : String) (first : Session α) (owned : List (Deed α)) (d : Deed α)
    (pending : List (Pending α)) : Prop :=
  ∃ os u, History setup first (owned ++ os) u pending ∧
    (Mirrors setup q d os ∧ Paired q true d.reply.session u ∨
      Releases setup.kind q d os ∧ Paired q false d.reply.session u)

/-! ## Single operations -/

/-- An echo counts the same blocks. -/
theorem Echo.blocks {setup : Setup α} {c : Channel α} {role : Role} {x : Exchange α}
    {xs : List (Exchange α)} (echo : Echo setup c role x xs) (blocks : Blocks) :
    blocks.afterAll x.effects = blocks.afterAll (xs.flatMap Exchange.effects) := by
  cases echo with
  | same | exclusive | exclusiveFailed => rw [List.flatMap_singleton]
  | timely =>
    rw [List.flatMap_singleton, Blocks.afterAll_append]
    split <;> rfl
  | @untimely action once timeout event fault untimed late =>
    cases action <;> first | rfl | cases untimed
  | drained within =>
    rw [List.flatMap_append]
    have silent (entries : List α) : (entries.map Exchange.reading).flatMap Exchange.effects =
      [] := by
      simp [Exchange.reading]
    rw [silent]
    split <;> rfl
  | _ => rfl

/-! ## What is done in a session of one channel -/

section Single

variable {setup : Setup α} {c : Channel α} {h : Handle} {blocks : Blocks} {pushes : Nat}
  {name : String} {action : Action α}

/-- What a handle of a split queue does with an action that is no call. -/
inductive Uncalled (setup : Setup α) (c : Channel α) (h : Handle) (blocks : Blocks) (pushes : Nat)
    (name : String) :
    Action α → Reply α (Result α) → Prop where
  | dropped : Uncalled setup c h blocks pushes name .drop
      (Session.drop setup ⟨[c], blocks, pushes⟩ name)
  | cloned (producer : h.role = .producer) (new : String) :
      Uncalled setup c h blocks pushes name (.clone new)
        (Session.cloneProducer setup ⟨[c], blocks, pushes⟩ name new c)
  | policy {chosen : Policy} (present : c.policy = some chosen) :
      Uncalled setup c h blocks pushes name .policy
        ((⟨[c], blocks, pushes⟩ : Session α).answer (.policy chosen))
  | idle {action : Action α} {result : Result α} (ended : result ≠ .waiting)
      (echo : Echo setup c h.role ⟨action, result, []⟩ []) :
      Uncalled setup c h blocks pushes name action
        ((⟨[c], blocks, pushes⟩ : Session α).answer result)

theorem useHandle_uncalled (shared : h.role ≠ .owner) (sequential : action.isSequential = true)
    (offered : action.isOffered h.role c.policy.isSome = true)
    (call : action.call? setup c h.role = none) :
    Uncalled setup c h blocks pushes name action (useHandle setup ⟨[c], blocks, pushes⟩ name c
      h.role action) := by
  cases action with
  | drop => exact .dropped
  | observe => exact .idle (by rintro ⟨⟩) .observed
  | describe onLines => exact .idle (by rintro ⟨⟩) (.described onLines)
  | clone new =>
    have producer : h.role = .producer := by
      rcases role : h.role with _ | _ | _ <;> simp_all [Action.isOffered]
    rw [useHandle, if_pos producer]
    exact .cloned producer new
  | policy =>
    cases chosen : c.policy with
    | none => simp [Action.isOffered, chosen] at offered
    | some policy =>
      simp only [useHandle, chosen]
      exact .policy chosen
  | exclusive operation =>
    cases sole : c.isSole with
    | true => simp [Action.call?, sole] at call
    | false =>
      simp only [useHandle, Session.exclusive, sole]
      exact .idle (by rintro ⟨⟩) (.denied sole)
  | front => simp [Action.call?, shared] at call
  | pushFromThread => cases sequential
  | push terms value => cases terms <;> cases call
  | split | blocks => simp_all [Action.isOffered]
  | _ => cases call

theorem Uncalled.ends {reply : Reply α (Result α)}
    (uncalled : Uncalled setup c h blocks pushes name action reply) :
    reply.result ≠ .waiting := by
  cases uncalled with
  | dropped | cloned => exact resultOf_ne_waiting _ nofun
  | policy => nofun
  | idle ended echo => exact ended

/-- How an action of a split queue is answered. -/
inductive Acting (setup : Setup α) (c : Channel α) (blocks : Blocks) (pushes : Nat) (name : String)
    (action : Action α) : Reply α (Result α) → Prop where
  | missing {result : Result α} (missing : c.handle? (.name name) = none)
      (answer : result = .unavailable ∨ action = .observe ∧ result = .nothing) :
      Acting setup c blocks pushes name action ((⟨[c], blocks, pushes⟩ : Session α).answer result)
  | unoffered {h : Handle} (found : c.handle? (.name name) = some h)
      (unoffered : action.isOffered h.role c.policy.isSome = false) :
      Acting setup c blocks pushes name action
        ((⟨[c], blocks, pushes⟩ : Session α).answer .unavailable)
  | called {h : Handle} {made : Call α (Result α)} (found : c.handle? (.name name) = some h)
      (offered : action.isOffered h.role c.policy.isSome = true)
      (call : action.call? setup c h.role = some made) :
      Acting setup c blocks pushes name action
        ⟨⟨[{ c with ring := made.ring }], blocks.afterAll made.effects, pushes⟩, resultOfCall made,
          made.effects⟩
  | uncalled {h : Handle} {reply : Reply α (Result α)} (found : c.handle? (.name name) = some h)
      (uncalled : Uncalled setup c h blocks pushes name action reply) :
      Acting setup c blocks pushes name action reply

/-- Of the handles of a split queue only the consumer ever needs to be by itself. -/
theorem Action.consumer_of_needsAll {role : Role} {hasPolicy : Bool}
    (needs : action.needsAll = true) (offered : action.isOffered role hasPolicy = true)
    (shared : role ≠ .owner) : role = .consumer := by
  cases action with
  | split | reserve | clear => simp_all [Action.isOffered]
  | exclusive operation => cases hasPolicy <;> simp_all [Action.isOffered]
  | _ => cases needs

theorem Channel.IsSplit.acting (split : c.IsSplit) (setup : Setup α) (blocks : Blocks)
    (pushes : Nat) (name : String) (sequential : action.isSequential = true) :
    Acting setup c blocks pushes name action ((⟨[c], blocks, pushes⟩ : Session α).perform setup
      name action) := by
  unfold Session.perform
  cases found : c.handle? (.name name) with
  | none =>
    simp only [find?_eq_none blocks pushes found]
    cases action with
    | observe => exact .missing found (.inr ⟨rfl, rfl⟩)
    | _ => exact .missing found (.inl rfl)
  | some h =>
    obtain ⟨member, -⟩ := Channel.handle?_eq_some found
    have shared := split.shared h member
    simp only [find?_of_handle? blocks pushes found]
    cases offered : action.isOffered h.role c.policy.isSome with
    | false => exact .unoffered found offered
    | true =>
      -- Who needs the handle for itself is the consumer, which no push keeps.
      have free : (action.needsAll && !h.keptBy.isEmpty) = false := by
        cases needs : action.needsAll with
        | false => rfl
        | true =>
          rw [split.free h member (Action.consumer_of_needsAll needs offered shared)]
          rfl
      simp only [free, Bool.not_true, Bool.false_eq_true, if_false]
      cases call : action.call? setup c h.role with
      | some made =>
        rw [useHandle_call _ name call, call_single found]
        exact .called found offered call
      | none => exact .uncalled found (useHandle_uncalled shared sequential offered call)

/-- How a request for room is answered in a session of one channel. -/
inductive Beginning.Single (c : Channel α) (blocks : Blocks) (pushes : Nat) (name : String)
    (terms : Terms) :
    Call α (Room α) → Reply α (Begun α) → Prop where
  | granted (evicted : Option α) (ring : Ring α) (effects : List (Effect α)) :
      Single c blocks pushes name terms (.returned (.granted evicted) ring effects)
        ⟨⟨[c.entered name pushes ring], blocks.afterAll effects, pushes + 1⟩,
          .granted pushes (terms.policy c) evicted, effects⟩
  | denied : Single c blocks pushes name terms (.returned .denied c.ring [])
      ⟨⟨[c], blocks, pushes⟩, .ended terms.refusal, []⟩
  | waiting (effects : List (Effect α)) :
      Single c blocks pushes name terms ⟨.waiting, c.ring, effects⟩
        ⟨⟨[c], blocks, pushes⟩, .ended .waiting, effects⟩

theorem beginEmplace_single (blocks : Blocks) (pushes : Nat) {limit reserved : Nat}
    {entries : List α} (holds : c.ring.Holds limit entries reserved)
    (found : c.handle? (.name name) = some h) {terms : Terms} (accepts : ¬ h.refuses c terms) :
    Beginning.Single c blocks pushes name terms (c.ring.request (terms.policy c))
      ((⟨[c], blocks, pushes⟩ : Session α).beginEmplace name terms) := by
  have place := located_single found
  have reached := find?_of_handle? blocks pushes found
  have requested := holds.requested (terms.policy c)
  generalize made : c.ring.request (terms.policy c) = call at requested
  cases requested with
  | room room admitted =>
    rw [beginEmplace_granted reached accepts made, place.entered]
    exact .granted none _ []
  | evicting kind contents full admitted =>
    rw [beginEmplace_granted reached accepts made, place.entered]
    exact .granted _ _ _
  | denied kind full =>
    rw [beginEmplace_denied reached accepts made, place.setRing_self]
    exact .denied
  | waiting kind full =>
    rw [beginEmplace_waiting reached accepts made, place.setRing_self, after_waitingLog]
    exact .waiting _

end Single

/-! ## In step -/

/-- The split queue and the unsplit one between two operations. -/
structure InStep (setup : Setup α) (q : String) (first : Session α) (c : Channel α)
    (blocks : Blocks) (pushes : Nat) (kept : List Nat) (owned : List (Deed α))
    (pending : List (Pending α)) : Prop where
  split : c.IsSplit
  between : Between (⟨[c], blocks, pushes⟩ : Session α) pending
  owner : Between (unsplit q c.policy kept pushes c.ring blocks) pending
  history : History setup first owned (unsplit q c.policy kept pushes c.ring blocks) pending

namespace InStep

variable {setup : Setup α} {q name : String} {first : Session α} {c : Channel α} {h : Handle}
  {blocks : Blocks} {pushes : Nat} {kept : List Nat} {owned : List (Deed α)}
  {pending pending' : List (Pending α)} {action : Action α}

theorem distinct (both : InStep setup q first c blocks pushes kept owned pending) : c.keys.Nodup :=
  (List.nodup_flatMap.mp both.between.sound.consistent.distinct).1 c List.mem_cons_self

theorem holds (both : InStep setup q first c blocks pushes kept owned pending) :
    ∃ limit entries, c.ring.Holds limit entries (pushCount c.keys) :=
  (both.between.sound.consistent.each c List.mem_cons_self).rest

/-- The owner waits for the next operation. -/
theorem waiting (both : InStep setup q first c blocks pushes kept owned pending) :
    History setup first (owned ++ []) (unsplit q c.policy kept pushes c.ring blocks) pending := by
  rw [List.append_nil]
  exact both.history

/-- When no push keeps a handle, none keeps the owner. -/
theorem free (both : InStep setup q first c blocks pushes kept owned pending)
    (free : ∀ h ∈ c.handles, h.keptBy = []) : kept = [] := by
  obtain rfl := pushes_eq_zero both.between.sound free
  exact kept_eq_nil both.owner.sound

/-- When the consumer is by itself, no push keeps the owner. -/
theorem free_of_isSole (both : InStep setup q first c blocks pushes kept owned pending)
    (found : c.handle? (.name name) = some h) (consumer : h.role = .consumer)
    (sole : c.isSole = true) :
    kept = [] := by
  obtain ⟨member, -⟩ := Channel.handle?_eq_some found
  obtain ⟨only, handles⟩ := List.length_eq_one_iff.mp (by simpa [Channel.isSole] using sole)
  have none_kept := both.split.free h member consumer
  rw [handles, List.mem_singleton] at member
  exact both.free (by simp [handles, ← member, none_kept])

/-! ### Actions -/

/-- What the owner can be asked for. -/
theorem exchanged (both : InStep setup q first c blocks pushes kept owned pending)
    (found : c.handle? (.name name) = some h) {x : Exchange α} {xs : List (Exchange α)}
    {ring : Ring α} (echo : Echo setup c h.role x xs)
    (exchanges : Exchanges setup c.policy (kept = []) c.ring xs ring) :
    Advances setup q first owned ⟨⟨[c], blocks, pushes⟩, .act name x.action,
      ⟨⟨[{ c with ring }], blocks.afterAll x.effects, pushes⟩, .ended x.result, x.effects⟩⟩
        pending := by
  obtain ⟨os, asked, goes⟩ := exchanges.history both.history
  rw [← echo.blocks] at goes
  have reached := find?_of_handle? blocks pushes found
  refine ⟨os, _, goes, .inl ⟨.exchanged reached ⟨rfl, rfl, rfl⟩ echo asked rfl, ?_⟩⟩
  exact .lasting (both.split.with_ring ring)

/-- A name is given up, and with the last handle the queue. -/
theorem dropped (both : InStep setup q first c blocks pushes kept owned pending)
    (found : c.handle? (.name name) = some h) :
    Advances setup q first owned ⟨⟨[c], blocks, pushes⟩, .act name .drop,
      (Session.drop setup ⟨[c], blocks, pushes⟩ name).ended⟩ pending := by
  obtain ⟨member, here⟩ := Channel.handle?_eq_some found
  have reached := find?_of_handle? blocks pushes found
  have gone := (located_single found).dropHandle setup.kind
  by_cases last : c.without (.name name) = []
  · have alone := both.split.handles_eq_singleton both.distinct member here last
    have none_kept : h.keptBy = [] := by
      simp only [Channel.without, alone, List.filterMap_cons, List.filterMap_nil] at last
      cases without : h.without (.name name) with
      | some rest => simp [without] at last
      | none => exact Handle.keptBy_of_without_name without
    obtain rfl := both.free (by simp [alone, none_kept])
    rw [if_pos (by rw [last]; rfl)] at gone
    have owner := both.history.acted unsplit_drop rfl (resultOf_ne_waiting _ (by rintro ⟨⟩))
    simp only [Session.drop, gone]
    have order := c.ring.release_goesInOrder setup.kind
    exact ⟨_, _, owner, .inr ⟨.dropped reached alone ⟨rfl, rfl, rfl⟩ ⟨rfl, rfl, rfl⟩ order rfl,
      .gone⟩⟩
  · rw [if_neg (by rwa [List.isEmpty_iff])] at gone
    simp only [Session.drop, gone]
    refine ⟨[], _, both.waiting, .inl ⟨.dropped reached ⟨rfl, rfl, rfl⟩ rfl, ?_⟩⟩
    exact .lasting (both.split.without _)

/-- A further producer. -/
theorem cloned (both : InStep setup q first c blocks pushes kept owned pending)
    (found : c.handle? (.name name) = some h) (producer : h.role = .producer) (new : String) :
    Advances setup q first owned ⟨⟨[c], blocks, pushes⟩, .act name (.clone new),
      (Session.cloneProducer setup ⟨[c], blocks, pushes⟩ name new c).ended⟩ pending := by
  have reached := find?_of_handle? blocks pushes found
  have removed := (located_single found).removeChannel
  rw [List.append_nil] at removed
  simp only [Session.cloneProducer, removed]
  refine ⟨[], _, both.waiting, .inl ⟨.cloned reached producer ⟨rfl, rfl, rfl⟩ rfl, ?_⟩⟩
  exact .lasting ((both.split.without _).with_producer new)

/-- Any action of the caller alone. -/
theorem acted (both : InStep setup q first c blocks pushes kept owned pending)
    (sequential : action.isSequential = true)
    (finished : ((⟨[c], blocks, pushes⟩ : Session α).perform setup name action).result ≠ .waiting) :
    Advances setup q first owned ⟨⟨[c], blocks, pushes⟩, .act name action,
      ((⟨[c], blocks, pushes⟩ : Session α).perform setup name action).ended⟩ pending := by
  have acting := both.split.acting setup blocks pushes name sequential
  generalize (⟨[c], blocks, pushes⟩ : Session α).perform setup name action =
    reply at acting finished
  cases acting with
  | missing missing answer =>
    have nobody := find?_eq_none blocks pushes missing
    exact ⟨[], _, both.waiting, .inl ⟨.missing nobody ⟨rfl, rfl, rfl⟩ answer rfl,
      .lasting both.split⟩⟩
  | unoffered found unoffered =>
    exact both.exchanged (x := ⟨action, .unavailable, []⟩) found (.unoffered unoffered)
      (.nil c.ring)
  | @called h made found offered call =>
    obtain ⟨limit, entries, holds⟩ := both.holds
    have shared := both.split.shared h (Channel.handle?_eq_some found).1
    have asks := Action.call?_asks shared offered call
    obtain ⟨xs, echo, exchanges⟩ := asks.echo holds (both.free_of_isSole found) finished
    exact both.exchanged (x := ⟨action, resultOfCall made, made.effects⟩) found echo exchanges
  | uncalled found uncalled =>
    cases uncalled with
    | dropped => exact both.dropped found
    | cloned producer new => exact both.cloned found producer new
    | @policy chosen present =>
      exact both.exchanged (x := ⟨.policy, .policy chosen, []⟩) found (.same rfl)
        (.policy present (.nil c.ring))
    | @idle action result ended echo =>
      exact both.exchanged (x := ⟨action, result, []⟩) found echo (.nil c.ring)

/-- An action that waits. -/
theorem acting_waits (both : InStep setup q first c blocks pushes kept owned pending)
    (sequential : action.isSequential = true)
    (waits : ((⟨[c], blocks, pushes⟩ : Session α).perform setup name action).result = .waiting) :
    action.WaitsFor setup.clock fun once =>
      ((unsplit q c.policy kept pushes c.ring blocks).perform setup q once).result := by
  have acting := both.split.acting setup blocks pushes name sequential
  generalize (⟨[c], blocks, pushes⟩ : Session α).perform setup name action = reply at acting waits
  cases acting with
  | missing missing answer =>
    cases waits
    rcases answer with answer | ⟨-, answer⟩ <;> cases answer
  | unoffered => cases waits
  | @called h made found offered call =>
    obtain ⟨limit, entries, holds⟩ := both.holds
    have shared := both.split.shared h (Channel.handle?_eq_some found).1
    have asks := Action.call?_asks shared offered call
    obtain ⟨once, attempt, ownerOffers, alone, ownerCall, waitsFor⟩ :=
      asks.waits holds (both.free_of_isSole found) waits
    refine waitsFor _ ?_
    rw [unsplit_perform ownerOffers alone ownerCall]
  | uncalled found uncalled => exact absurd waits uncalled.ends

/-! ### Pushes with a constructor -/

/-- A split queue and an unsplit one that were asked for room and answered alike. -/
inductive AnsweredAlike (q name : String) (c : Channel α) (number : Nat) :
    Reply α (Begun α) → Reply α (Begun α) → Prop where
  | mk {c' : Channel α} {kept : List Nat} {blocks : Blocks} {pushes : Nat} {begun : Begun α}
      {effects : List (Effect α)} {ring : Ring α} (split : c'.IsSplit)
      (handles : c' = { c with ring } ∨ c' = c.entered name number ring) :
      AnsweredAlike q name c number ⟨⟨[c'], blocks, pushes⟩, begun, effects⟩
        ⟨unsplit q c'.policy kept pushes c'.ring blocks, begun, effects⟩

/-- Those who share a name with a producer are producers. -/
theorem producers (both : InStep setup q first c blocks pushes kept owned pending)
    (found : c.handle? (.name name) = some h) (pushes : h.role ≠ .consumer) (other : Handle)
    (member : other ∈ c.handles) (answers : other.answersTo (.name name) = true) :
    other.role = .producer := by
  obtain ⟨handle, here⟩ := Channel.handle?_eq_some found
  rw [eq_of_shared both.distinct handle here member ((other.answersTo_iff _).mp answers)]
  have shared := both.split.shared h handle
  cases role : h.role with
  | owner => exact absurd role shared
  | producer => rfl
  | consumer => exact absurd role pushes

/-- A producer that asks for room is answered like the owner. -/
theorem answeredAlike (both : InStep setup q first c blocks pushes kept owned pending)
    (found : c.handle? (.name name) = some h) {terms : Terms} (accepts : ¬ h.refuses c terms) :
    AnsweredAlike q name c pushes ((⟨[c], blocks, pushes⟩ : Session α).beginEmplace name terms)
      ((unsplit q c.policy kept pushes c.ring blocks).beginEmplace q terms) := by
  obtain ⟨limit, entries, holds⟩ := both.holds
  have begins := beginEmplace_single blocks pushes holds found accepts
  have ownerAccepts : ¬ Handle.refuses ⟨some q, .owner, kept⟩ (.owned q c.policy kept c.ring)
    terms := by
    rw [Handle.refuses, not_or] at accepts ⊢
    exact ⟨by rintro ⟨⟩, accepts.2⟩
  have ownerBegins := beginEmplace_single blocks pushes
    (c := .owned q c.policy kept c.ring) holds (Channel.owned_handle? q c.policy kept c.ring)
      ownerAccepts
  have same : terms.policy (.owned q c.policy kept c.ring) = terms.policy c := by
    cases terms <;> rfl
  rw [same] at ownerBegins
  change Beginning.Single _ _ _ _ _ (c.ring.request _)
    ((unsplit q c.policy kept pushes c.ring blocks).beginEmplace q terms) at ownerBegins
  generalize (⟨[c], blocks, pushes⟩ : Session α).beginEmplace name terms = reply at begins
  generalize (unsplit q c.policy kept pushes c.ring blocks).beginEmplace q terms =
    ownerReply at ownerBegins
  generalize c.ring.request (terms.policy c) = call at begins ownerBegins
  cases begins with
  | granted evicted ring effects =>
    cases ownerBegins
    rw [same, Channel.owned_entered]
    have pushing : h.role ≠ .consumer := fun consumer => accepts (.inl consumer)
    exact .mk ((both.split.with_ring ring).keeping (both.producers found pushing) pushes) (.inr rfl)
  | denied =>
    cases ownerBegins
    exact .mk both.split (.inl rfl)
  | waiting =>
    cases ownerBegins
    exact .mk both.split (.inl rfl)

/-- What may come of a request for room does not depend on the name. -/
theorem ends_rename {terms : Terms} {begun : Begun α}
    (ends : Operation.Ends (.enter name terms) pending begun pending') (other : String) :
    Operation.Ends (.enter other terms) pending begun pending' := by
  cases ends with
  | turnedDown finished => exact .turnedDown finished
  | entered => exact .entered

/-- A push asks for room. -/
theorem entered (both : InStep setup q first c blocks pushes kept owned pending) {terms : Terms}
    (ends : Operation.Ends (.enter name terms) pending
      ((⟨[c], blocks, pushes⟩ : Session α).beginEmplace name terms).result pending') :
    Advances setup q first owned ⟨⟨[c], blocks, pushes⟩, .enter name terms,
      (⟨[c], blocks, pushes⟩ : Session α).beginEmplace name terms⟩ pending' := by
  have away (refuses : ∀ c' h,
      (⟨[c], blocks, pushes⟩ : Session α).find? (.name name) = some (c', h) →
      h.refuses c' terms)
      (answered : (⟨[c], blocks, pushes⟩ : Session α).beginEmplace name terms =
        (⟨[c], blocks, pushes⟩ : Session α).answer (.ended .unavailable)) :
      Advances setup q first owned ⟨⟨[c], blocks, pushes⟩, .enter name terms,
        (⟨[c], blocks, pushes⟩ : Session α).beginEmplace name terms⟩ pending' := by
    rw [answered] at ends ⊢
    cases ends with
    | turnedDown finished =>
      exact ⟨[], _, both.waiting, .inl ⟨.turnedAway refuses rfl rfl, .lasting both.split⟩⟩
  cases found : c.handle? (.name name) with
  | none =>
    have nobody := find?_eq_none blocks pushes found
    refine away (by simp [nobody]) ?_
    simp only [beginEmplace, nobody]
  | some h =>
    have reached := find?_of_handle? blocks pushes found
    by_cases accepts : h.refuses c terms
    · refine away ?_ (beginEmplace_refused reached accepts)
      intro c' h' other
      obtain ⟨rfl, same⟩ := of_find?_single other
      rwa [Option.some.inj (same.symm.trans found)]
    · have alike := both.answeredAlike found accepts
      have next (answer : ((unsplit q c.policy kept pushes c.ring blocks).beginEmplace q
        terms).result =
          ((⟨[c], blocks, pushes⟩ : Session α).beginEmplace name terms).result) :=
        History.next (.enter q terms) both.history (answer ▸ ends_rename ends q)
      simp only [Operation.run] at next
      generalize (⟨[c], blocks, pushes⟩ : Session α).beginEmplace name terms = reply at alike next
      generalize (unsplit q c.policy kept pushes c.ring blocks).beginEmplace q terms =
        ownerReply at alike next
      cases alike with
      | mk split handles =>
        have listed := handles.imp (congrArg List.singleton) (congrArg List.singleton)
        exact ⟨_, _, next rfl, .inl ⟨.entered reached accepts rfl rfl rfl rfl listed,
          .lasting split⟩⟩

/-- A request for room that waits. -/
theorem entering_waits (both : InStep setup q first c blocks pushes kept owned pending)
    {terms : Terms} (waits : ((⟨[c], blocks, pushes⟩ : Session α).beginEmplace name terms).result =
      .ended .waiting) :
    ((unsplit q c.policy kept pushes c.ring blocks).beginEmplace q terms).result =
      .ended .waiting := by
  cases found : c.handle? (.name name) with
  | none =>
    simp only [beginEmplace, find?_eq_none blocks pushes found] at waits
    cases waits
  | some h =>
    by_cases accepts : h.refuses c terms
    · rw [beginEmplace_refused (find?_of_handle? blocks pushes found) accepts] at waits
      cases waits
    · have alike := both.answeredAlike found accepts
      generalize (⟨[c], blocks, pushes⟩ : Session α).beginEmplace name terms = reply at alike waits
      generalize (unsplit q c.policy kept pushes c.ring blocks).beginEmplace q terms =
        ownerReply at alike
      cases alike
      exact waits

/-- A push ends, and with it the queue, if the push kept the last handle. -/
theorem left {push : Pending α}
    (both : InStep setup q first c blocks pushes kept owned (push :: pending))
    (made : Except Fault α) :
    Advances setup q first owned ⟨⟨[c], blocks, pushes⟩, .leave push made,
      Operation.run setup ⟨[c], blocks, pushes⟩ (.leave push made)⟩ pending := by
  have ended : Between (Operation.run setup _ (.leave push made)).session pending :=
    both.between.next .left
  have ownerEnded : Between (Operation.run setup _ (.leave push made)).session pending :=
    both.owner.next .left
  -- The push keeps a handle of the split queue, and the owner of the other.
  obtain ⟨h, found⟩ : ∃ h, c.handle? (.push push.number) = some h := by
    have under_way := (both.between.sound.under_way push.number).mpr both.between.number_lt
    rw [keysOf_cons, keysOf_nil, List.append_nil] at under_way
    exact Option.isSome_iff_exists.mp ((c.isReached_iff _).mpr under_way)
  have keeps : push.number ∈ kept := unsplit_kept both.owner.sound both.owner.number_lt
  obtain ⟨member, here⟩ := Channel.handle?_eq_some found
  have reached := find?_of_handle? blocks pushes found
  have left := History.next (.leave push made) both.history .left
  have gone := (located_single (c := { c with ring := (push.closing setup.kind made c.ring).ring })
    found).dropHandle setup.kind
  simp only [Operation.run, push.leave_unsplit made keeps] at left ownerEnded
  simp only [Operation.run, push.leave_single made found] at ended ⊢
  by_cases last : c.without (.push push.number) = []
  · rw [if_pos (by simpa [Channel.without] using last)] at gone
    simp only [gone] at ended ⊢
    have free : kept.erase push.number = [] := by
      have none_left : push.number = 0 := by
        by_contra some_push
        exact absurd ((ended.sound.under_way 0).mpr (Nat.pos_of_ne_zero some_push)) List.not_mem_nil
      have sound := ownerEnded.sound
      rw [none_left] at sound ⊢
      exact kept_eq_nil sound
    rw [free] at left
    have released := left.acted unsplit_drop rfl (resultOf_ne_waiting _ (by rintro ⟨⟩))
    rw [List.append_assoc] at released
    have alone := both.split.handles_eq_singleton both.distinct member here last
    have order := (push.closing setup.kind made c.ring).ring.release_goesInOrder setup.kind
    refine ⟨_, _, released, .inr ⟨?_, .gone⟩⟩
    exact .left reached alone rfl ⟨rfl, rfl⟩ ⟨rfl, rfl, rfl⟩ rfl ⟨rfl, rfl, rfl⟩ order rfl
  · rw [if_neg (by simpa [Channel.without] using last)] at gone
    simp only [gone, List.append_nil] at ended ⊢
    refine ⟨_, _, left, .inl ⟨.left reached rfl rfl rfl rfl rfl, ?_⟩⟩
    exact .lasting ((both.split.with_ring (push.closing setup.kind made c.ring).ring).without
      (.push push.number))

/-- Any operation through a handle. -/
theorem next (both : InStep setup q first c blocks pushes kept owned pending)
    {operation : Operation α} (through : operation.isThroughHandle = true)
    (ends : operation.Ends pending (operation.run setup ⟨[c], blocks, pushes⟩).result pending') :
    Advances setup q first owned ⟨⟨[c], blocks, pushes⟩, operation, operation.run setup
      ⟨[c], blocks, pushes⟩⟩
      pending' := by
  cases operation with
  | create => cases through
  | act name action =>
    generalize replied : (Operation.run setup ⟨[c], blocks, pushes⟩ (.act name action)).result =
      result at ends
    cases ends with
    | acted sequential finished =>
      cases replied
      exact both.acted sequential finished
  | enter name terms => exact both.entered ends
  | leave push made =>
    cases ends with
    | left => exact both.left made

end InStep

/-- When the queue is gone, no operation does anything. -/
theorem late {setup : Setup α} {blocks : Blocks} {pushes : Nat}
    {pending pending' : List (Pending α)}
    (between : Between (⟨[], blocks, pushes⟩ : Session α) pending) {operation : Operation α}
    (through : operation.isThroughHandle = true)
    (ends : operation.Ends pending (operation.run setup ⟨[], blocks, pushes⟩).result pending') :
    Deed.IsLate ⟨⟨[], blocks, pushes⟩, operation, operation.run setup ⟨[], blocks, pushes⟩⟩ ∧
      pending' = pending := by
  cases operation with
  | create => cases through
  | act name action =>
    generalize replied : (Operation.run setup ⟨[], blocks, pushes⟩ (.act name action)).result =
      result at ends
    cases ends with
    | acted sequential finished =>
      refine ⟨⟨rfl, ?_⟩, rfl⟩
      cases action with
      | observe => exact .inr rfl
      | _ => exact .inl rfl
  | enter name terms =>
    cases ends with
    | turnedDown finished => exact ⟨⟨rfl, .inl rfl⟩, rfl⟩
  | leave push made =>
    cases ends with
    | left =>
      exact absurd ((between.sound.under_way push.number).mpr between.number_lt)
        List.not_mem_nil

end RingQueue.Session
