import RingQueue.Proofs.Session.Balance

/-!
Where the clones of a session come from.

Only looking at the front, cloning a queue and filling a ring make clones. An action makes them of
entries that were unread or of the value that was given (`Reply.Copies`), so that over many steps
all clones go back to values that were given (`Ledger.Copies`).
-/
namespace RingQueue

/-! ## Ledgers -/

/-- Originals, their clones, the clones of those, and so on. -/
inductive Cloning.Descends {α : Type} (cloning : Cloning α) (originals : Multiset α) :
    α → Prop where
  | original {a : α} (present : a ∈ originals) : cloning.Descends originals a
  | copy {a b : α} {before : Nat} (descends : cloning.Descends originals a)
      (made : cloning.copy before a = .ok b) : cloning.Descends originals b

namespace Cloning

variable {α : Type} {cloning : Cloning α} {originals middle copies : Multiset α}

theorem Descends.trans {b : α} (descends : cloning.Descends middle b)
    (each : ∀ a ∈ middle, cloning.Descends originals a) : cloning.Descends originals b := by
  induction descends with
  | original present => exact each _ present
  | copy _ made ih => exact .copy ih made

theorem Descends.mono {b : α} (descends : cloning.Descends middle b) (within : middle ⊆ originals) :
    cloning.Descends originals b :=
  descends.trans fun _ present => .original (within present)

theorem Makes.descends (makes : cloning.Makes originals copies) {b : α} (member : b ∈ copies) :
    cloning.Descends originals b := by
  obtain ⟨a, present, before, made⟩ := makes b member
  exact .copy (.original present) made

end Cloning

namespace Session

variable {α β : Type}

/-- The clones of a ledger go back to what there was and was given. -/
def Ledger.Copies (l : Ledger α) (cloning : Cloning α) (before : Multiset α) : Prop :=
  ∀ b ∈ l.cloned, cloning.Descends (before + l.given) b

namespace Ledger.Copies

variable {cloning : Cloning α} {l m : Ledger α} {before between after : Multiset α}

theorem zero (cloning : Cloning α) (before : Multiset α) : (0 : Ledger α).Copies cloning before :=
  fun b member => absurd member (Multiset.notMem_zero b)

theorem mono (copies : l.Copies cloning before) (within : before ⊆ after) :
    l.Copies cloning after :=
  fun b member => (copies b member).mono fun a present =>
    Multiset.mem_add.mpr ((Multiset.mem_add.mp present).imp_left (@within a))

/-- What is there after a ledger goes back to what there was before and was given. -/
theorem descends (copies : l.Copies cloning before) {b : α}
    (there : b ∈ before + l.given + l.cloned) :
    cloning.Descends (before + l.given) b := by
  rcases Multiset.mem_add.mp there with original | copy
  · exact .original original
  · exact copies b copy

theorem add (first : l.Copies cloning before) (balances : l.Balances before between)
    (second : m.Copies cloning between) : (l + m).Copies cloning before := by
  have part : before + l.given ⊆ before + (l + m).given :=
    Multiset.subset_of_le (Multiset.add_le_add_left (Multiset.le_add_right _ _))
  intro b member
  rcases Multiset.mem_add.mp member with early | late
  · exact (first b early).mono part
  · refine (second b late).trans fun a present => ?_
    rcases Multiset.mem_add.mp present with there | given
    · refine (first.descends ?_).mono part
      rw [balances]
      exact Multiset.mem_add.mpr (.inl (Multiset.mem_add.mpr (.inl there)))
    · exact .original (Multiset.mem_add.mpr (.inr (Multiset.mem_add.mpr (.inr given))))

/-- Clones of a single operation, whatever it handed out. -/
theorem single {given handed : List α} {effects : List (Effect α)}
    (makes : cloning.Makes (before + given) (Effect.clones effects)) :
    (Ledger.single given handed effects).Copies cloning before :=
  fun _ member => makes.descends member

end Ledger.Copies

/-! ## Handles that are given up -/

/-- A reply cloned only entries that were unread and values that were given. -/
def Reply.Copies (reply : Reply α β) (s : Session α) (cloning : Cloning α)
    (given : List α) : Prop :=
  cloning.Makes (unreadIn s.channels + given) (Effect.clones reply.effects)

theorem Reply.Copies.of_nil {reply : Reply α β} (silent : Effect.clones reply.effects = [])
    (s : Session α) (cloning : Cloning α) (given : List α) : reply.Copies s cloning given := by
  rw [Copies, silent]
  exact .nothing cloning _

theorem dropHandle_clones (k : EntryKind α) (key : Key) (channels : List (Channel α)) :
    Effect.clones (dropHandle k key channels).effects = [] := by
  rcases dropHandle_effects k key channels with none | ⟨r, released⟩
  · rw [none]
    rfl
  · simp [released, Ring.release]

theorem dropHandles_clones (k : EntryKind α) (names : List String) (channels : List (Channel α)) :
    Effect.clones (dropHandles k names channels).effects = [] := by
  induction names generalizing channels with
  | nil => rfl
  | cons name names ih => simp [dropHandles, dropHandle_clones, ih]

theorem place_clones (s : Session α) (k : EntryKind α) (channels : List (Channel α))
    (new : Channel α) (log : List (Effect α)) (result : Result α) :
    Effect.clones (s.place k channels new log result).effects = Effect.clones log := by
  simp [place, dropHandles_clones]

theorem placeBuilt_clones (s : Session α) (k : EntryKind α) (name : String)
    (built : Built α (Ring α × Option Policy)) (result : Result α) :
    Effect.clones (s.placeBuilt k name built result).effects = Effect.clones built.effects := by
  unfold placeBuilt
  split
  · rfl
  · exact place_clones ..

/-! ## Actions -/

theorem Exclusive.apply_clones {r : Ring α} {c reserved : Nat} {entries : List α}
    (h : r.Holds c entries reserved) (k : EntryKind α) (operation : Exclusive α) :
    Effect.clones (operation.apply k r).effects = [] := by
  cases operation with
  | reserve capacity => exact r.reserve_clones k capacity
  | clear => exact r.clear_clones k
  | popFront => exact h.popFront_clones
  | front => rfl
  | tryPushBack value => exact h.push_clones .reject value
  | forcePushBack value => exact h.push_clones .overwrite value

/-- What the call of an action clones are entries of its ring. -/
theorem Action.call?_clones {setup : Setup α} {c : Channel α} {role : Role}
    {capacity reserved : Nat} {entries : List α} (h : c.ring.Holds capacity entries reserved)
    {action : Action α} {made : Call α (Result α)} (call : action.call? setup c role = some made) :
    made.Clones c.ring setup.kind.cloning := by
  cases action with
  | push terms value =>
    cases terms with
    | asked policy => cases call; exact .of_nil (h.push_clones policy value) _ _
    | configured =>
      cases call; exact .of_nil (h.pushUnder_clones setup.kind c.overflowPolicy value) _ _
  | pushWithin timeout value =>
    cases call; exact .of_nil (h.pushBackWithin_clones setup.clock timeout value) _ _
  | popFront | read => cases call; exact .of_nil h.popFront_clones _ _
  | popWithin timeout | readWithin timeout =>
    cases call; exact .of_nil (h.popFrontWithin_clones setup.clock timeout) _ _
  | front =>
    simp only [Action.call?] at call
    split at call
    · cases call
    · cases call
      exact h.peekClone_clones setup.kind.cloning
  | drain limit => cases call; exact .of_nil (h.drain_clones limit) _ _
  | reserve larger => cases call; exact .of_nil (c.ring.reserve_clones setup.kind larger) _ _
  | clear => cases call; exact .of_nil (c.ring.clear_clones setup.kind) _ _
  | exclusive operation =>
    simp only [Action.call?] at call
    split at call
    · cases call
      exact .of_nil (operation.apply_clones h setup.kind) _ _
    · cases call
  | _ => cases call

namespace Sound

variable {s : Session α} {key : Key} {c : Channel α} {h : Handle} {setup : Setup α}

/-- Clones of the entries of a ring are clones of entries in the session. -/
theorem copies (sound : s.Sound) (found : s.find? key = some (c, h)) {cloning : Cloning α}
    {log : List (Effect α)} (makes : cloning.Makes c.ring.unread (Effect.clones log))
    (given : List α) :
    cloning.Makes (unreadIn s.channels + given) (Effect.clones log) := by
  obtain ⟨before, after, at_⟩ := located_of_findChannel sound.consistent.distinct found
  refine makes.of_subset fun a unread => ?_
  rw [at_.split, unreadIn_append, unreadIn_cons]
  simp only [Multiset.mem_add]
  exact .inl (.inr (.inl unread))

theorem cloneQueue_copies (sound : s.Sound) {name : String} (new : String)
    (found : s.find? (.name name) = some (c, h)) :
    (Session.cloneQueue setup s name new c).Copies s setup.kind.cloning [] := by
  obtain ⟨capacity, entries, holds⟩ := (sound.consistent.each c (findChannel_eq_some found).1).rest
  have made := sound.copies found (holds.duplicate_clones setup.kind) []
  unfold Reply.Copies Session.cloneQueue
  dsimp only
  split
  · rwa [place_clones]
  · exact made
  · exact made

theorem performed_copies (sound : s.Sound) {name : String} {action : Action α}
    {reply : Setup α → Reply α (Result α)} (performs : Performs s name action reply)
    (setup : Setup α) (given : List α) :
    (reply setup).Copies s setup.kind.cloning given := by
  cases performs with
  | refused | looked => exact .of_nil rfl s _ given
  | called found offered free call =>
    obtain ⟨capacity, entries, holds⟩ :=
      (sound.consistent.each _ (findChannel_eq_some found).1).rest
    dsimp only
    rw [call_eq]
    exact sound.copies found (Action.call?_clones holds (call setup)) given
  | dropped found => exact .of_nil (dropHandle_clones ..) s _ given
  | split found owner free producer consumer =>
    exact .of_nil (place_clones ..) s _ given
  | clonedProducer found producer new => exact .of_nil (dropHandle_clones ..) s _ given
  | clonedQueue found owner new =>
    exact (sound.cloneQueue_copies new found).of_subset
      (Multiset.subset_of_le (Multiset.add_le_add_left (Multiset.zero_le _)))
  | @handedOver c h found consumer values pops =>
    refine .of_nil ?_ s _ given
    unfold Session.pushFromThread
    split
    · dsimp only
      split
      · split <;> rfl
      · split <;> rfl
    · rfl

end Sound

theorem create_copies (setup : Setup α) (s : Session α) (name : String) (creation : Creation α) :
    (s.create setup name creation).Copies s setup.kind.cloning creation.values := by
  cases creation with
  | queue source =>
    cases source with
    | ofCapacity capacity =>
      refine .of_nil ?_ s _ _
      rw [create, placeBuilt_clones]
      simp only [Built.map, Ring.create]
      split <;> simp
    | filled capacity value =>
      rw [Reply.Copies, create, placeBuilt_clones]
      refine (Ring.filled_clones setup.kind capacity value).of_subset (Multiset.subset_of_le ?_)
      exact Multiset.le_add_left _ _
  | policyQueue source =>
    refine .of_nil ?_ s _ _
    cases source with
    | ofCapacity capacity policy =>
      rw [create, placeBuilt_clones]
      simp only [Built.map, PolicyQueue.create, Ring.create]
      split <;> simp
    | ofConfig config =>
      rw [create, PolicyQueue.ofConfig]
      cases config.validate with
      | error fault => rfl
      | ok _ =>
        simp only [placeBuilt_clones, Built.map, PolicyQueue.create, Ring.create]
        split <;> simp

end RingQueue.Session
