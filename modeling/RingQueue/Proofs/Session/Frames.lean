import RingQueue.Proofs.Protocol.Turns
import RingQueue.Proofs.Session.Histories

/-!
What an operation leaves alone.

An operation reaches channels by the keys that it uses. A channel none of whose keys it uses is
there afterwards as it was before: the ring, the policy and the handles. This goes on over any
number of operations, steps and threads (`Elsewhere.mem`).
-/
namespace RingQueue.Session

variable {α : Type}

/-! ## Keys -/

/-- The names that an action uses besides that of its handle. -/
def Action.names : Action α → List String
  | .split producer consumer => [producer, consumer]
  | .clone name => [name]
  | .pushFromThread consumer _ _ => [consumer]
  | _ => []

/-- The keys that an operation uses. -/
def Operation.keys : Operation α → List Key
  | .create name _ => [.name name]
  | .act name action => .name name :: action.names.map .name
  | .enter name _ => [.name name]
  | .leave push _ => [.push push.number]

mutual

/-- The keys that a step uses, with those of the steps that its constructor runs. -/
def Step.keys : Step α → List Key
  | .create name _ => [.name name]
  | .act name action => .name name :: action.names.map .name
  | .emplace name _ during _ => .name name :: Step.allKeys during

def Step.allKeys : List (Step α) → List Key
  | [] => []
  | step :: rest => step.keys ++ Step.allKeys rest

end

mutual

/-- Steps know handles by their names only. -/
theorem Step.keys_name : (step : Step α) → ∀ key ∈ step.keys, ∃ name, key = .name name
  | .create name _ => List.forall_mem_singleton.mpr ⟨name, rfl⟩
  | .act name action => by
    refine List.forall_mem_cons.mpr ⟨⟨name, rfl⟩, fun key member => ?_⟩
    obtain ⟨other, -, rfl⟩ := List.mem_map.mp member
    exact ⟨other, rfl⟩
  | .emplace name _ during _ => List.forall_mem_cons.mpr ⟨⟨name, rfl⟩, Step.allKeys_name during⟩

theorem Step.allKeys_name : (steps : List (Step α)) → ∀ key ∈ Step.allKeys steps, ∃ name,
    key = .name name
  | [] => nofun
  | step :: rest => List.forall_mem_append.mpr ⟨step.keys_name, Step.allKeys_name rest⟩

end

/-! ## Channels -/

section Channels

variable {c : Channel α} {channels : List (Channel α)} {key : Key}

theorem mem_map_reached (member : c ∈ channels) (apart : key ∉ c.keys)
    (change : Channel α → Channel α) :
    c ∈ channels.map fun other => if other.isReached key then change other else other := by
  refine List.mem_map.mpr ⟨c, member, ?_⟩
  simp [(c.isReached_eq_false key).mpr apart]

theorem mem_setRing (member : c ∈ channels) (apart : key ∉ c.keys) (ring : Ring α) :
    c ∈ setRing key ring channels :=
  mem_map_reached member apart fun other => { other with ring }

theorem mem_removeChannel (member : c ∈ channels) (apart : key ∉ c.keys) :
    c ∈ removeChannel key channels := by
  refine List.mem_filter.mpr ⟨member, ?_⟩
  rw [(c.isReached_eq_false key).mpr apart]
  rfl

theorem mem_dropHandle (k : EntryKind α) (member : c ∈ channels) (apart : key ∉ c.keys) :
    c ∈ (dropHandle k key channels).channels := by
  induction channels with
  | nil => cases member
  | cons other rest ih =>
    simp only [dropHandle]
    rcases List.mem_cons.mp member with rfl | later
    · rw [(c.isReached_eq_false key).mpr apart]
      exact List.mem_cons_self
    · split
      · exact List.mem_cons_of_mem _ (ih later)
      · split
        · exact later
        · exact List.mem_cons_of_mem _ later

theorem mem_dropHandles (k : EntryKind α) {names : List String} (member : c ∈ channels)
    (apart : ∀ name ∈ names, .name name ∉ c.keys) :
    c ∈ (dropHandles k names channels).channels := by
  induction names generalizing channels with
  | nil => exact member
  | cons name names ih =>
    obtain ⟨first, others⟩ := List.forall_mem_cons.mp apart
    exact ih (mem_dropHandle k member first) others

end Channels

/-! ## Operations -/

section Operations

variable {s : Session α} {c : Channel α} {name : String}

theorem mem_place {k : EntryKind α} {channels : List (Channel α)} {new : Channel α}
    (member : c ∈ channels) (apart : ∀ name ∈ new.handles.filterMap (·.name), .name name ∉ c.keys)
    (log : List (Effect α)) (result : Result α) :
    c ∈ (s.place k channels new log result).session.channels :=
  List.mem_append_left _ (mem_dropHandles k member apart)

theorem mem_create (setup : Setup α) (member : c ∈ s.channels) (apart : .name name ∉ c.keys)
    (creation : Creation α) : c ∈ (s.create setup name creation).session.channels := by
  rw [create_eq]
  cases creation.build setup with
  | error e => exact member
  | ok built =>
    simp only [placeBuilt]
    split
    · exact member
    · exact mem_place member (by simpa [Handle.named] using apart) _ _

theorem mem_performs {action : Action α} {reply : Setup α → Reply α (Result α)}
    (performs : Performs s name action reply) (setup : Setup α) (member : c ∈ s.channels)
    (apart : .name name ∉ c.keys) (others : ∀ other ∈ action.names, .name other ∉ c.keys) :
    c ∈ (reply setup).session.channels := by
  cases performs with
  | refused | looked => exact member
  | called => exact mem_setRing member apart _
  | dropped => exact mem_dropHandle setup.kind member apart
  | split found owner free producer consumer =>
    refine mem_place (mem_removeChannel member apart) ?_ _ _
    intro other new
    refine others other ?_
    split at new
    · rename_i same
      simpa [Handle.named, Action.names, same] using new
    · simpa [Handle.named, Action.names] using new
  | clonedProducer found producer new =>
    exact List.mem_append_left _
      (mem_dropHandle setup.kind (mem_removeChannel member apart) (others new List.mem_cons_self))
  | @clonedQueue origin h found owner new =>
    have kept := mem_setRing member apart (origin.ring.duplicate setup.kind).ring
    simp only [cloneQueue]
    split
    · exact mem_place kept (by simpa [Handle.named] using others new List.mem_cons_self) _ _
    · exact kept
    · exact kept
  | handedOver found consumer values pops =>
    simp only [Session.pushFromThread]
    split
    · split
      · split
        · exact mem_setRing member apart _
        · exact member
      · split
        · exact mem_setRing (mem_setRing member apart _) (others consumer List.mem_cons_self) _
        · exact member
    · exact member

theorem mem_beginEmplace (member : c ∈ s.channels) (apart : .name name ∉ c.keys) (terms : Terms) :
    c ∈ (s.beginEmplace name terms).session.channels := by
  unfold beginEmplace
  split
  · exact member
  · rename_i found h _
    dsimp only
    split
    · exact member
    · have kept (ring : Ring α) := mem_setRing member apart ring
      split
      · exact mem_map_reached (kept _) apart _
      · split <;> exact kept _
      · exact kept _
      · exact kept _

theorem mem_endEmplace (setup : Setup α) (member : c ∈ s.channels) {number : Nat}
    (apart : .push number ∉ c.keys) (terms : Terms) (policy : OverflowPolicy) (evicted : Option α)
    (made : Except Fault α) :
    c ∈ (s.endEmplace setup number terms policy evicted made).session.channels := by
  unfold endEmplace
  split
  · exact member
  · cases terms with
    | asked => exact mem_dropHandle setup.kind (mem_setRing member apart _) apart
    | configured => exact mem_dropHandle setup.kind (mem_setRing member apart _) apart

/-- An operation leaves a channel alone none of whose keys it uses. -/
theorem Operation.mem_run (setup : Setup α) (member : c ∈ s.channels) {operation : Operation α}
    (apart : ∀ key ∈ operation.keys, key ∉ c.keys) :
    c ∈ (operation.run setup s).session.channels := by
  cases operation with
  | create name creation => exact mem_create setup member (apart _ List.mem_cons_self) creation
  | act name action =>
    obtain ⟨here, others⟩ := List.forall_mem_cons.mp apart
    exact mem_performs (performs s name action) setup member here
      fun other new => others _ (List.mem_map_of_mem new)
  | enter name terms => exact mem_beginEmplace member (apart _ List.mem_cons_self) terms
  | leave push made => exact mem_endEmplace setup member (apart _ List.mem_cons_self) _ _ _ made

end Operations

/-! ## Whole runs -/

/-- What operations and threads that use none of the keys can make of a session, on the way or at
the end. -/
inductive Elsewhere (setup : Setup α) (keys : List Key) (s : Session α) : Session α → Prop where
  | start : Elsewhere setup keys s s
  | next {t : Session α} (operation : Operation α) (before : Elsewhere setup keys s t)
      (apart : ∀ key ∈ operation.keys, key ∉ keys) :
        Elsewhere setup keys s (operation.run setup t).session
  | threads {t : Session α} {key : Key} {c : Channel α} {h : Handle}
      {calls : List (List (Protocol.Request α))} {last : Protocol.System α}
      (before : Elsewhere setup keys s t) (apart : key ∉ keys) (found : t.find? key = some (c, h))
      (reachable : Protocol.Reachable (.start c.ring calls) last) :
      Elsewhere setup keys s { t with channels := setRing key last.ring t.channels }

/-- Whatever goes on elsewhere, a channel is left alone. -/
theorem Elsewhere.mem {setup : Setup α} {s t : Session α} {c : Channel α}
    (elsewhere : Elsewhere setup c.keys s t) (member : c ∈ s.channels) : c ∈ t.channels := by
  induction elsewhere with
  | start => exact member
  | next operation before apart ih => exact operation.mem_run setup ih apart
  | threads before apart found reachable ih => exact mem_setRing ih apart _

/-! ## Steps go on elsewhere -/

section Pushes

variable (s : Session α) (name : String)

theorem create_pushes (setup : Setup α) (creation : Creation α) :
    (s.create setup name creation).session.pushes = s.pushes := by
  rw [create_eq]
  cases creation.build setup with
  | error e => rfl
  | ok built =>
    simp only [placeBuilt]
    split <;> rfl

theorem Performs.pushes {s : Session α} {name : String} {action : Action α}
    {reply : Setup α → Reply α (Result α)} (performs : Performs s name action reply)
    (setup : Setup α) : (reply setup).session.pushes = s.pushes := by
  cases performs with
  | clonedQueue | handedOver =>
    simp only [cloneQueue, Session.pushFromThread]
    repeat' split
    all_goals rfl
  | _ => rfl

/-- A push that is granted room gets the next number. -/
theorem beginEmplace_pushes (terms : Terms) :
    (∃ result, (s.beginEmplace name terms).result = .ended result ∧
      (s.beginEmplace name terms).session.pushes = s.pushes) ∨
    ∃ policy evicted, (s.beginEmplace name terms).result = .granted s.pushes policy evicted ∧
      (s.beginEmplace name terms).session.pushes = s.pushes + 1 := by
  unfold beginEmplace
  split
  · exact .inl ⟨_, rfl, rfl⟩
  · dsimp only
    split
    · exact .inl ⟨_, rfl, rfl⟩
    · split
      · exact .inr ⟨_, _, rfl, rfl⟩
      · cases terms <;> exact .inl ⟨_, rfl, rfl⟩
      · exact .inl ⟨_, rfl, rfl⟩
      · exact .inl ⟨_, rfl, rfl⟩

end Pushes

mutual

theorem Step.run_elsewhere {setup : Setup α} {keys : List Key} {first : Session α} :
    (step : Step α) → (s : Session α) → Elsewhere setup keys first s →
    (∀ key ∈ step.keys, key ∉ keys) →
      (∀ number, .push number ∈ keys → number < s.pushes) →
      Elsewhere setup keys first (Step.run setup step s).1 ∧
        s.pushes ≤ (Step.run setup step s).1.pushes
  | .create name creation, s, elsewhere, apart, _ =>
    ⟨.next (.create name creation) elsewhere apart,
      Nat.le_of_eq (create_pushes s name setup creation).symm⟩
  | .act name action, s, elsewhere, apart, _ =>
    ⟨.next (.act name action) elsewhere apart,
      Nat.le_of_eq ((performs s name action).pushes setup).symm⟩
  | .emplace name terms during made, s, elsewhere, apart, below => by
    obtain ⟨here, inner⟩ := List.forall_mem_cons.mp apart
    have begun : Elsewhere setup keys first (s.beginEmplace name terms).session :=
      .next (.enter name terms) elsewhere (List.forall_mem_singleton.mpr here)
    unfold Step.run
    rcases beginEmplace_pushes s name terms with ⟨result, began, pushes⟩ | ⟨policy, evicted,
      began, pushes⟩
    · simp only [began]
      exact ⟨begun, Nat.le_of_eq pushes.symm⟩
    · simp only [began]
      have below' : ∀ number, .push number ∈ keys →
        number < (s.beginEmplace name terms).session.pushes := by
        intro number member
        have := below number member
        omega
      obtain ⟨inside, more⟩ := Step.runAll_elsewhere during _ begun inner below'
      have more : s.pushes ≤ (Step.runAll setup during
        (s.beginEmplace name terms).session).1.pushes := by omega
      split
      · exact ⟨inside, more⟩
      · -- The number of the push is not one of the keys, which are of pushes before it.
        have own : .push s.pushes ∉ keys := fun member => Nat.lt_irrefl _ (below _ member)
        refine ⟨.next (.leave ⟨s.pushes, terms, policy, evicted⟩ made) inside
          (List.forall_mem_singleton.mpr own), ?_⟩
        unfold endEmplace
        split
        · exact more
        · exact Nat.le_refl _

theorem Step.runAll_elsewhere {setup : Setup α} {keys : List Key} {first : Session α} :
    (steps : List (Step α)) → (s : Session α) → Elsewhere setup keys first s →
      (∀ key ∈ Step.allKeys steps, key ∉ keys) →
        (∀ number, .push number ∈ keys → number < s.pushes) →
      Elsewhere setup keys first (Step.runAll setup steps s).1 ∧
        s.pushes ≤ (Step.runAll setup steps s).1.pushes
  | [], s, elsewhere, _, _ => ⟨elsewhere, Nat.le_refl _⟩
  | step :: rest, s, elsewhere, apart, below => by
    obtain ⟨first, others⟩ := List.forall_mem_append.mp apart
    obtain ⟨one, more⟩ := Step.run_elsewhere step s elsewhere first below
    unfold Step.runAll
    dsimp only
    split
    · exact ⟨one, more⟩
    · have below' : ∀ number, .push number ∈ keys → number < (Step.run setup step s).1.pushes :=
        fun number member => Nat.lt_of_lt_of_le (below number member) more
      obtain ⟨all, evenMore⟩ := Step.runAll_elsewhere rest _ one others below'
      exact ⟨all, Nat.le_trans more evenMore⟩

end

end RingQueue.Session
