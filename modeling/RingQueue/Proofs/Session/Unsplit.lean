import RingQueue.Proofs.Ring.Blocks
import RingQueue.Proofs.Session.Echoes

/-!
Sessions of one queue, and those in which nobody has split it.

In a session of one channel, calls and the ends of pushes are computed. The owner of an unsplit
queue can be asked for exchanges, one after the other (`Exchanges.history`), can have pushes under
way, and can give up the queue.
-/
namespace RingQueue.Session

variable {α : Type}

/-! ## Sessions of one channel -/

section Single

variable {c : Channel α} {h : Handle} {key : Key} {blocks : Blocks} {pushes : Nat}

theorem find?_single (c : Channel α) (blocks : Blocks) (pushes : Nat) (key : Key) :
    (⟨[c], blocks, pushes⟩ : Session α).find? key = (c.handle? key).map fun h => (c, h) := by
  simp only [find?, findChannel, List.findSome?_cons, List.findSome?_nil]
  cases c.handle? key <;> rfl

theorem find?_of_handle? (blocks : Blocks) (pushes : Nat) (found : c.handle? key = some h) :
    (⟨[c], blocks, pushes⟩ : Session α).find? key = some (c, h) := by
  rw [find?_single, found]
  rfl

theorem find?_eq_none (blocks : Blocks) (pushes : Nat) (missing : c.handle? key = none) :
    (⟨[c], blocks, pushes⟩ : Session α).find? key = none := by
  rw [find?_single, missing]
  rfl

theorem of_find?_single {c' : Channel α}
    (found : (⟨[c], blocks, pushes⟩ : Session α).find? key = some (c', h)) :
    c' = c ∧ c.handle? key = some h := by
  rw [find?_single] at found
  obtain ⟨handle, here, same⟩ := Option.map_eq_some_iff.mp found
  cases same
  exact ⟨rfl, here⟩

theorem located_single (found : c.handle? key = some h) : Located key [c] [] c [] := by
  obtain ⟨member, here⟩ := Channel.handle?_eq_some found
  exact ⟨rfl, List.mem_flatMap.mpr ⟨h, member, here⟩, List.not_mem_nil, List.not_mem_nil⟩

/-- A call through a handle only changes the ring. -/
theorem call_single (found : c.handle? key = some h) (made : Call α (Result α)) :
    (⟨[c], blocks, pushes⟩ : Session α).call key made id =
      ⟨⟨[{ c with ring := made.ring }], blocks.afterAll made.effects, pushes⟩, resultOfCall made,
        made.effects⟩ := by
  have changed := (located_single found).setRing made.ring
  rw [List.nil_append] at changed
  rw [call_eq, Session.after, changed]

/-- The end of a push is a call, after which the push no longer keeps its handle. -/
theorem Pending.leave_single (push : Pending α) (made : Except Fault α) {setup : Setup α}
    (found : c.handle? (.push push.number) = some h) :
    (⟨[c], blocks, pushes⟩ : Session α).endEmplace setup push.number push.terms push.policy
      push.evicted made =
      let closed := push.closing setup.kind made c.ring
      let dropped := dropHandle setup.kind (.push push.number) [{ c with ring := closed.ring }]
      ⟨⟨dropped.channels, (blocks.afterAll closed.effects).afterAll dropped.effects, push.number⟩,
        resultOf dropped.fault (resultOfCall closed), closed.effects ++ dropped.effects⟩ := by
  have changed := (located_single found).setRing (push.closing setup.kind made c.ring).ring
  rw [List.nil_append] at changed
  rw [push.leave_eq made (find?_of_handle? blocks pushes found)]
  simp only [changed]

/-- Where no push keeps a handle, none is under way. -/
theorem pushes_eq_zero (sound : Sound (⟨[c], blocks, pushes⟩ : Session α))
    (free : ∀ h ∈ c.handles, h.keptBy = []) : pushes = 0 := by
  by_contra some_push
  have under_way := (sound.under_way 0).mpr (Nat.pos_of_ne_zero some_push)
  rw [keysOf_cons, keysOf_nil, List.append_nil, Channel.keys, handleKeys_of_free free] at under_way
  simp at under_way

end Single

/-! ## The unsplit queue -/

/-- A channel with its owner, whom some pushes keep. -/
def Channel.owned (q : String) (policy : Option Policy) (kept : List Nat)
    (r : Ring α) : Channel α :=
  ⟨r, policy, [⟨some q, .owner, kept⟩]⟩

theorem Channel.owned_handle? (q : String) (policy : Option Policy) (kept : List Nat) (r : Ring α) :
    (Channel.owned q policy kept r).handle? (.name q) = some ⟨some q, .owner, kept⟩ := by
  simp [Channel.owned, Channel.handle?, Handle.answersTo]

theorem Channel.owned_handle?_push (q : String) (policy : Option Policy) (r : Ring α)
    {kept : List Nat} {number : Nat} (keeps : number ∈ kept) :
    (Channel.owned q policy kept r).handle? (.push number) = some ⟨some q, .owner, kept⟩ := by
  simp [Channel.owned, Channel.handle?, Handle.answersTo, keeps]

/-- The session of a queue that nobody has split. -/
def unsplit (q : String) (policy : Option Policy) (kept : List Nat) (pushes : Nat) (r : Ring α)
    (blocks : Blocks) : Session α :=
  ⟨[.owned q policy kept r], blocks, pushes⟩

/-- The deed is an operation of the handle with this name that went as the exchange says. -/
structure Exchange.IsAskedBy (name : String) (x : Exchange α) (d : Deed α) : Prop where
  operation : d.operation = .act name x.action
  result : d.reply.result = .ended x.result
  effects : d.reply.effects = x.effects

section Unsplit

variable {setup : Setup α} {q : String} {policy : Option Policy} {kept : List Nat} {pushes : Nat}
  {r : Ring α} {blocks : Blocks}

theorem unsplit_find? :
    (unsplit q policy kept pushes r blocks).find? (.name q) =
      some (.owned q policy kept r, ⟨some q, .owner, kept⟩) :=
  find?_of_handle? blocks pushes (Channel.owned_handle? q policy kept r)

/-- A call of the owner. -/
theorem unsplit_perform {action : Action α} {made : Call α (Result α)}
    (offered : action.isOffered .owner policy.isSome = true)
    (alone : action.needsAll = true → kept = [])
    (call : action.call? setup ⟨r, policy, []⟩ .owner = some made) :
    (unsplit q policy kept pushes r blocks).perform setup q action =
      ⟨unsplit q policy kept pushes made.ring (blocks.afterAll made.effects), resultOfCall made,
        made.effects⟩ := by
  have called : action.call? setup (.owned q policy kept r) .owner = some made := by
    cases action with
    | push terms value => cases terms <;> exact call
    | exclusive operation => simp [Action.call?, Channel.isSole] at call
    | _ => exact call
  have offers : action.isOffered .owner (Channel.owned q policy kept r).policy.isSome =
    true := offered
  have free : (action.needsAll && !kept.isEmpty) = false := by
    cases needs : action.needsAll with
    | false => rfl
    | true => rw [alone needs]; rfl
  simp only [Session.perform, unsplit_find?]
  rw [if_neg (by simp [offers]), if_neg (by simp [free]), useHandle_call _ _ called]
  exact call_single (Channel.owned_handle? q policy kept r) made

/-- The owner looks at the front, or at the policy. -/
theorem unsplit_look {action : Action α} {result : Result α}
    (look : action = .front ∧ policy = none ∧ result = .entry r.front? ∨
      action = .policy ∧ ∃ chosen, policy = some chosen ∧ result = .policy chosen) :
    (unsplit q policy kept pushes r blocks).perform setup q action =
      ⟨unsplit q policy kept pushes r blocks, result, []⟩ := by
  rcases look with ⟨rfl, rfl, rfl⟩ | ⟨rfl, chosen, rfl, rfl⟩ <;>
  · simp only [Session.perform, unsplit_find?]
    rfl

/-- What the owner is asked is a history. -/
theorem Exchanges.history {r' : Ring α} {xs : List (Exchange α)} {first : Session α}
    {owned : List (Deed α)} {pending : List (Pending α)}
    (exchanges : Exchanges setup policy (kept = []) r xs r')
    (history : History setup first owned (unsplit q policy kept pushes r blocks) pending) :
    ∃ os, List.Forall₂ (Exchange.IsAskedBy q) xs os ∧
      History setup first (owned ++ os)
        (unsplit q policy kept pushes r' (blocks.afterAll (xs.flatMap Exchange.effects)))
          pending := by
  -- One exchange, and then the others.
  have more {r between r' : Ring α} {blocks : Blocks} {owned : List (Deed α)} {x : Exchange α}
      {later : List (Exchange α)}
      (asked : (unsplit q policy kept pushes r blocks).perform setup q x.action =
        ⟨unsplit q policy kept pushes between (blocks.afterAll x.effects), x.result, x.effects⟩)
      (sequential : x.action.isSequential = true) (finished : x.result ≠ .waiting)
      (history : History setup first owned (unsplit q policy kept pushes r blocks) pending)
      (ih : ∀ {blocks : Blocks} {owned : List (Deed α)},
        History setup first owned (unsplit q policy kept pushes between blocks) pending →
        ∃ os, List.Forall₂ (Exchange.IsAskedBy q) later os ∧
          History setup first (owned ++ os)
            (unsplit q policy kept pushes r' (blocks.afterAll (later.flatMap Exchange.effects)))
              pending) :
      ∃ os, List.Forall₂ (Exchange.IsAskedBy q) (x :: later) os ∧
        History setup first (owned ++ os)
          (unsplit q policy kept pushes r'
            (blocks.afterAll ((x :: later).flatMap Exchange.effects))) pending := by
    obtain ⟨os, matched, rest⟩ := ih (history.acted asked sequential finished)
    rw [← List.append_cons, ← Blocks.afterAll_append] at rest
    exact ⟨_, .cons ⟨rfl, rfl, rfl⟩ matched, rest⟩
  induction exchanges generalizing owned blocks with
  | nil => exact ⟨[], .nil, by rwa [List.append_nil]⟩
  | @call r r' action made later offered alone call finished rest ih =>
    have sequential : action.isSequential = true := by
      cases action <;> first | rfl | cases call
    exact more (x := ⟨action, _, _⟩) (unsplit_perform offered alone call) sequential
      finished history ih
  | @front r r' later plain rest ih =>
    exact more (x := ⟨.front, _, []⟩) (unsplit_look (.inl ⟨rfl, plain, rfl⟩)) rfl nofun history ih
  | @policy r r' chosen later present rest ih =>
    exact more (x := ⟨.policy, _, []⟩) (unsplit_look (.inr ⟨rfl, chosen, present, rfl⟩)) rfl
      nofun history ih

/-- The owner gives up the queue. -/
theorem unsplit_drop :
    (unsplit q policy [] pushes r blocks).perform setup q .drop =
      ⟨⟨[], blocks.afterAll (r.release setup.kind).2, pushes⟩,
        resultOf (r.release setup.kind).1 .done,
        (r.release setup.kind).2⟩ := by
  have gone := (located_single (Channel.owned_handle? q policy [] r)).dropHandle setup.kind
  rw [if_pos (by simp [Channel.without, Channel.owned, Handle.without])] at gone
  simp only [Session.perform, unsplit_find?]
  change Session.drop setup _ _ = _
  simp only [Session.drop, unsplit, gone]
  rfl

/-- A push keeps the owner. -/
theorem Channel.owned_entered (q : String) (policy : Option Policy) (kept : List Nat)
    (r ring : Ring α) (number : Nat) : (Channel.owned q policy kept r).entered q number ring =
    .owned q policy (number :: kept) ring := by
  simp [Channel.owned, Channel.entered, Channel.keeping, Handle.answersTo, Handle.kept]

/-- A push no longer keeps the owner. -/
theorem Channel.owned_dropHandle (k : EntryKind α) (q : String) (policy : Option Policy)
    (r : Ring α) {kept : List Nat} {number : Nat} (keeps : number ∈ kept) :
    dropHandle k (.push number) [Channel.owned q policy kept r] =
      ⟨[.owned q policy (kept.erase number) r], [], none⟩ := by
  rw [(located_single (Channel.owned_handle?_push q policy r keeps)).dropHandle]
  rfl

/-- The end of a push of the owner. -/
theorem Pending.leave_unsplit (push : Pending α) (made : Except Fault α)
    (keeps : push.number ∈ kept) : (unsplit q policy kept pushes r blocks).endEmplace setup
    push.number push.terms push.policy push.evicted made =
      ⟨unsplit q policy (kept.erase push.number) push.number (push.closing setup.kind made r).ring
          (blocks.afterAll (push.closing setup.kind made r).effects),
        resultOfCall (push.closing setup.kind made r),
          (push.closing setup.kind made r).effects⟩ := by
  have left := Channel.owned_dropHandle setup.kind q policy (push.closing setup.kind made r).ring
    keeps
  rw [unsplit, push.leave_single made (Channel.owned_handle?_push q policy r keeps)]
  simp only [Channel.owned] at left ⊢
  simp only [left, List.append_nil]
  rfl

/-- The pushes that are under way keep the owner. -/
theorem unsplit_kept (sound : (unsplit q policy kept pushes r blocks).Sound) {number : Nat}
    (began : number < pushes) :
    number ∈ kept := by
  have under_way := (sound.under_way number).mpr began
  simpa [unsplit, Channel.owned, Channel.keys, Handle.keys] using under_way

/-- Where no push is under way, none keeps the owner. -/
theorem kept_eq_nil (sound : (unsplit q policy kept 0 r blocks).Sound) : kept = [] := by
  refine List.eq_nil_iff_forall_not_mem.mpr fun number member => ?_
  have reached : .push number ∈ keysOf (unsplit q policy kept 0 r blocks).channels := by
    simp [unsplit, Channel.owned, Channel.keys, Handle.keys, member]
  exact Nat.not_lt_zero _ ((sound.under_way number).mp reached)

/-- A queue at rest that nobody has split. -/
theorem Between.unsplit {capacity : Nat} {entries : List α} (holds : r.Holds capacity entries 0)
    (q : String) (policy : Option Policy) (blocks : Blocks) :
    Between (unsplit q policy [] 0 r blocks) [] := by
  refine ⟨⟨⟨?_, by simp [Session.unsplit, Channel.owned, Channel.keys, Handle.keys]⟩, ?_⟩,
    rfl, .nil⟩
  · exact List.forall_mem_singleton.mpr (Channel.sound_owned holds policy q)
  · intro number
    simp [Session.unsplit, Channel.owned, Channel.keys, Handle.keys]

end Unsplit

end RingQueue.Session
