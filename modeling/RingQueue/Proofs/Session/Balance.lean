import RingQueue.Proofs.Session.Calls
import RingQueue.Proofs.Session.Soundness

/-!
Single actions of a session neither lose nor double a value.

`Reply.Balanced` says so of a reply, and that the channels are still consistent. There is one lemma
for each way in which actions change the channels: a call on the ring behind a key, a new channel
that takes over names, a key that is given up, and a further producer.
-/
namespace RingQueue.Session

variable {α β : Type}

/-- What holds of a session between two actions. -/
structure Sound (s : Session α) : Prop where
  consistent : Consistent s.channels
  under_way : ∀ number, .push number ∈ keysOf s.channels ↔ number < s.pushes

/-- The reply leaves the session consistent, with the same pushes under way, and accounts for all
values. -/
structure Reply.Balanced (reply : Reply α β) (s : Session α) (given handed : List α) : Prop where
  consistent : Consistent reply.session.channels
  pushes : reply.session.pushes = s.pushes
  under_way : ∀ number, .push number ∈ keysOf reply.session.channels ↔
    .push number ∈ keysOf s.channels
  balance : (Ledger.single given handed reply.effects).Balances (unreadIn s.channels)
    (unreadIn reply.session.channels)

theorem Reply.Balanced.sound {reply : Reply α β} {s : Session α} {given handed : List α}
    (balanced : reply.Balanced s given handed) (sound : s.Sound) : reply.session.Sound where
  consistent := balanced.consistent
  under_way := by
    intro number
    rw [balanced.under_way, sound.under_way, balanced.pushes]

/-- A queue that nobody has split is reached by its owner. -/
theorem Channel.sound_owned {r : Ring α} {c : Nat} {entries : List α} (holds : r.Holds c entries 0)
    (policy : Option Policy) (name : String) :
    Channel.Sound ⟨r, policy, [.named name .owner]⟩ 0 where
  rest := ⟨c, entries, holds⟩
  sole := by
    rintro h member -
    rw [List.mem_singleton.mp member]
  reached := by simp [Channel.keys]

/-- What balances the contents of one ring balances those of all. -/
theorem Located.balances {key : Key} {channels before after : List (Channel α)} {c : Channel α}
    (place : Located key channels before c after) {made : Call α β} {given : List α}
    {out : β → List α} {reserved : Nat} (conserves : made.Conserves c.ring given out reserved) :
    (Ledger.single given (made.handed out) made.effects).Balances (unreadIn channels)
      (unreadIn (before ++ { c with ring := made.ring } :: after)) := by
  unfold Ledger.Balances Ledger.single
  rw [place.split, unreadIn_append, unreadIn_append, unreadIn_cons, unreadIn_cons]
  calc
    unreadIn before + (c.ring.unread + unreadIn after) + given + Effect.clones made.effects
      = unreadIn before + unreadIn after +
        (c.ring.unread + given + Effect.clones made.effects) := by abel
    _ = unreadIn before + (made.ring.unread + unreadIn after) + made.handed out +
        Effect.drops made.effects := by rw [conserves.balance]; abel

/-! ## What actions take and hand out -/

namespace Action

variable {action : Action α} {role : Option Role}

theorem handed_of_refused (action : Action α) {result : Result α}
    (refused : result.isRefused = true) :
    action.handed role result = [] := by
  have nothing : result.handed = [] := by
    cases result with
    | exclusive outcome => cases outcome <;> first | rfl | cases refused
    | unavailable => rfl
    | _ => cases refused
  unfold handed
  split
  · rfl
  · rfl
  · exact nothing

theorem values_of_look (look : action.isLook = true) : action.values = [] := by
  cases action <;> first | rfl | cases look

/-- A call that breaks off or waits hands out nothing. -/
theorem handed_resultOfCall (action : Action α) (made : Call α (Result α)) :
    action.handed role (resultOfCall made) = made.handed (action.handed role) := by
  have nothing (result : Result α) (none_handed : result.handed = []) :
    action.handed role result = [] := by
    unfold handed
    split
    · rfl
    · rfl
    · exact none_handed
  obtain ⟨outcome, ring, effects⟩ := made
  cases outcome with
  | returned value => rfl
  | aborted fault => exact nothing (.aborted fault) rfl
  | waiting => exact nothing .waiting rfl

variable {setup : Setup α} {c : Channel α} {capacity reserved : Nat} {entries : List α}

/-- An operation of a caller whom nobody disturbs. -/
theorem exclusive_conserves (drops : setup.kind.dropFails = none)
    (h : c.ring.Holds capacity entries 0) (operation : Exclusive α)
    (finished : (operation.apply setup.kind c.ring).outcome ≠ .waiting) :
    (operation.apply setup.kind c.ring).Conserves c.ring (exclusive operation).values
      (fun x => (exclusive operation).handed role (.exclusive (some x))) 0 := by
  cases operation with
  | reserve larger => exact (h.reserve_conserves setup.kind larger rfl).map
  | clear => exact (h.clear_conserves drops rfl).map
  | popFront =>
    change (c.ring.popFront.map ExclusiveResult.entry).Conserves _ _ _ _
    exact .map (h.popFront_conserves fun _ => rfl)
  | front =>
    -- The entry is shown in its place, and stays there.
    refine .returned h ?_
    rw [h.unread]
    rfl
  | tryPushBack value =>
    exact .map (.map (h.push_conserves (fun _ => rfl) rfl nofun
      (outcome_map_ne_waiting (outcome_map_ne_waiting finished))))
  | forcePushBack value =>
    exact .map (.map (h.push_conserves nofun rfl (fun _ _ => rfl)
      (outcome_map_ne_waiting (outcome_map_ne_waiting finished))))

/-- The call of an action neither loses nor doubles a value, and is not refused. -/
theorem call?_conserves (drops : setup.kind.dropFails = none)
    (h : c.ring.Holds capacity entries reserved) {own : Role}
    (alone : action.needsAll = true → reserved = 0) {made : Call α (Result α)}
    (call : action.call? setup c own = some made) (finished : made.outcome ≠ .waiting) :
    made.Conserves c.ring action.values (action.handed (some own)) reserved ∧
      (resultOfCall made).isRefused = false := by
  -- A call is refused only by a result that says so.
  have accepted {β : Type} (made : Call α β) {present : β → Result α}
      (each : ∀ value, (present value).isRefused = false) :
      (resultOfCall (made.map present)).isRefused = false := by
    rw [resultOfCall_map]
    split
    · exact each _
    · rfl
    · rfl
  cases action with
  | push terms value =>
    cases terms with
    | asked policy =>
      cases call
      refine ⟨.map (h.push_conserves (fun _ => rfl) ?_ ?_ (outcome_map_ne_waiting finished)),
        accepted _ ?_⟩
      · cases policy <;> rfl
      · rintro oldest rfl
        rfl
      · rintro (_ | evicted)
        · rfl
        · cases policy <;> rfl
    | configured =>
      cases call
      exact ⟨.map (h.pushUnder_conserves drops (outcome_map_ne_waiting finished)),
        accepted _ fun _ => rfl⟩
  | pushWithin timeout value =>
    cases call
    exact ⟨.map (h.pushBackWithin_conserves rfl rfl (outcome_map_ne_waiting finished)),
      accepted _ fun _ => rfl⟩
  | popFront =>
    cases call
    exact ⟨.map (h.popFront_conserves fun _ => rfl), accepted _ fun _ => rfl⟩
  | popWithin timeout =>
    cases call
    exact ⟨.map (h.popFrontWithin_conserves (fun _ => rfl) (outcome_map_ne_waiting finished)),
      accepted _ fun _ => rfl⟩
  | read =>
    cases call
    refine ⟨.map (.map (h.popFront_conserves ?_)), accepted _ fun _ => rfl⟩
    rintro (_ | a) <;> rfl
  | readWithin timeout =>
    cases call
    refine ⟨.map (h.popFrontWithin_conserves ?_ (outcome_map_ne_waiting finished)),
      accepted _ fun _ => rfl⟩
    rintro (_ | a) <;> rfl
  | front =>
    simp only [call?] at call
    split at call
    · cases call
    · rename_i other
      cases call
      -- What the caller gets is the clone, if one was made.
      have handed (result : Result α) : front.handed (some own) result = result.handed := by
        cases own <;> first | rfl | exact absurd rfl other
      refine ⟨.map (h.peekClone_conserves _ fun a => ?_), accepted _ fun _ => rfl⟩
      rw [handed]
      rfl
  | drain limit =>
    cases call
    exact ⟨.map (h.drain_conserves limit fun _ => rfl), accepted _ fun _ => rfl⟩
  | reserve larger =>
    cases call
    obtain rfl := alone rfl
    exact ⟨.map (h.reserve_conserves setup.kind larger rfl), accepted _ fun _ => rfl⟩
  | clear =>
    cases call
    obtain rfl := alone rfl
    exact ⟨.map (h.clear_conserves drops rfl), accepted _ fun _ => rfl⟩
  | exclusive operation =>
    simp only [call?] at call
    split at call
    · cases call
      obtain rfl := alone rfl
      exact ⟨.map (exclusive_conserves drops h operation (outcome_map_ne_waiting finished)),
        accepted _ fun _ => rfl⟩
    · cases call
  | _ => cases call

end Action

namespace Sound

variable {s : Session α} {key : Key} {c : Channel α} {h : Handle}

theorem empty : (Session.empty : Session α).Sound := ⟨.nil, fun number => by simp [Session.empty]⟩

/-- An answer changes nothing. -/
theorem unchanged (sound : s.Sound) (result : β) : (s.answer result).Balanced s [] [] :=
  ⟨sound.consistent, rfl, fun _ => Iff.rfl, by simp [Ledger.Balances, Ledger.single,
    Session.answer]⟩

/-! ## Calls on a ring -/

theorem call (sound : s.Sound) (found : s.find? key = some (c, h)) {made : Call α β}
    {given : List α} {out : β → List α}
    (conserves : made.Conserves c.ring given out (pushCount c.keys)) (present : β → Result α) :
    (s.call key made present).Balanced s given (made.handed out) := by
  obtain ⟨before, after, place⟩ := located_of_findChannel sound.consistent.distinct found
  have old := sound.consistent.each c place.mem
  have changed : Channel.Sound { c with ring := made.ring } (pushCount c.keys) :=
    ⟨conserves.rest, old.sole, old.reached⟩
  have channels : (s.call key made present).session.channels =
      before ++ { c with ring := made.ring } :: after := place.setRing made.ring
  refine ⟨?_, rfl, ?_, ?_⟩
  · rw [channels]
    exact sound.consistent.replace place changed (List.Sublist.refl _)
  · intro number
    rw [channels, place.keysOf_ring]
  · rw [channels]
    exact place.balances conserves

theorem call_handed (made : Call α β) (present : β → Result α) :
    (s.call key made present).result.handed = made.handed fun value => (present value).handed := by
  obtain ⟨outcome, ring, effects⟩ := made
  cases outcome <;> rfl

/-! ## New channels -/

/-- A new channel takes its names from the handles that had them. -/
theorem place {channels : List (Channel α)} (consistent : Consistent channels)
    (same : ∀ number, .push number ∈ keysOf channels ↔ .push number ∈ keysOf s.channels)
    {k : EntryKind α} (drops : k.dropFails = none) {new : Channel α} (sound : new.Sound 0)
    (free : ∀ h ∈ new.handles, h.keptBy = []) (distinct : new.keys.Nodup)
    {log : List (Effect α)} {given : List α}
    (balance : (Ledger.single given [] log).Balances (unreadIn s.channels)
      (unreadIn channels + new.ring.unread))
    (result : Result α) :
    (s.place k channels new log result).Balanced s given [] ∧
      (s.place k channels new log result).result = result := by
  have names : new.keys = (new.handles.filterMap (·.name)).map Key.name := handleKeys_of_free free
  have settled := consistent.dropHandles drops (new.handles.filterMap (·.name))
  rw [← names] at settled
  have added : (s.place k channels new log result).session.channels =
      (dropHandles k (new.handles.filterMap (·.name)) channels).channels ++ [new] := rfl
  have keys : keysOf (s.place k channels new log result).session.channels =
      (keysOf channels).filter (· ∉ new.keys) ++ new.keys := by
    rw [added, keysOf_append, settled.keys, keysOf_cons, keysOf_nil, List.append_nil]
  have named (number : Nat) : Key.push number ∉ new.keys := by
    rw [names]
    simp
  refine ⟨⟨⟨?_, ?_⟩, rfl, ?_, ?_⟩, ?_⟩
  · intro other member
    rw [added] at member
    rcases List.mem_append.mp member with old | newest
    · exact settled.consistent.each other old
    · obtain rfl := List.mem_singleton.mp newest
      rw [Channel.keys, pushCount_of_free free]
      exact sound
  · rw [keys, List.nodup_append]
    refine ⟨consistent.distinct.filter _, distinct, ?_⟩
    rintro key old _ newest rfl
    have := (List.mem_filter.mp old).2
    simp [newest] at this
  · intro number
    rw [keys, List.mem_append, List.mem_filter, ← same]
    simp [named number]
  · have unread := settled.unread
    change _ + (given : Multiset α) + (Effect.clones (log ++ _) : Multiset α) =
      unreadIn (_ ++ [new]) + 0 + (Effect.drops (log ++ _) : Multiset α)
    change _ + (given : Multiset α) + (Effect.clones log : Multiset α) =
      _ + (0 : Multiset α) + (Effect.drops log : Multiset α) at balance
    rw [Effect.clones_append, settled.clones, List.append_nil, balance, unread, unreadIn_append,
      unreadIn_cons, unreadIn_nil, Effect.drops_append, ← Multiset.coe_add]
    abel
  · change resultOf (dropHandles k _ channels).fault result = result
    rw [settled.fault]
    rfl

/-- A queue that has been built gets a name, and one that could not be built leaves the session as
it was. -/
theorem placeBuilt (sound : s.Sound) {k : EntryKind α} (drops : k.dropFails = none) (name : String)
    {built : Built α (Ring α × Option Policy)} {given : List α}
    (conserves : built.Conserves Prod.fst given) (result : Result α) :
    (s.placeBuilt k name built result).Balanced s given [] := by
  obtain ⟨made, log⟩ := built
  have balance := conserves.balance
  cases made with
  | error fault =>
    refine ⟨sound.consistent, rfl, fun _ => Iff.rfl, ?_⟩
    change _ + (given : Multiset α) + (Effect.clones log : Multiset α) =
      unreadIn s.channels + (0 : Multiset α) + (Effect.drops log : Multiset α)
    rw [add_assoc, balance]
    simp [Built.kept]
  | ok new =>
    obtain ⟨c, entries, holds⟩ := conserves.rest new rfl
    have owned := Channel.sound_owned holds new.2 name
    refine (place sound.consistent (fun _ => Iff.rfl) drops owned ?_ ?_ ?_ result).1
    · simp [Handle.named]
    · simp [Channel.keys]
    · change _ + (given : Multiset α) + (Effect.clones log : Multiset α) =
        unreadIn s.channels + (new.1.unread : Multiset α) + (0 : Multiset α) +
          (Effect.drops log : Multiset α)
      rw [add_assoc, balance]
      simp only [Built.kept]
      abel

/-! ## Handles -/

/-- The only handle of a channel, if no push keeps it, leaves the ring without admissions. -/
theorem alone (sound : s.Sound) (member : c ∈ s.channels) (alone : c.handles = [h])
    (free : h.keptBy = []) : c.Sound 0 := by
  have counted := sound.consistent.each c member
  rw [Channel.keys, alone, pushCount_of_free (by simp [free])] at counted
  exact counted

theorem drop (sound : s.Sound) {setup : Setup α} (drops : setup.kind.dropFails = none)
    (name : String) : (Session.drop setup s name).Balanced s [] [] ∧
    (Session.drop setup s name).result.handed = [] := by
  have settled := (sound.consistent.but_name name).dropHandle drops
  refine ⟨⟨settled.consistent, rfl, ?_, ?_⟩, ?_⟩
  · intro number
    change _ ∈ keysOf (dropHandle setup.kind (.name name) s.channels).channels ↔ _
    rw [settled.keys]
    simp
  · simp [Ledger.Balances, Ledger.single, Session.drop, settled.clones, settled.unread,
      Session.after]
  · simp only [Session.drop, settled.fault]
    rfl

theorem split (sound : s.Sound) {setup : Setup α} (drops : setup.kind.dropFails = none)
    {name : String} (producer consumer : String) (found : s.find? (.name name) = some (c, h))
    (owner : h.role = .owner) (free : h.keptBy = []) :
    (Session.split setup s name producer consumer c).Balanced s [] [] ∧
      (Session.split setup s name producer consumer c).result.handed = [] := by
  obtain ⟨before, after, at_⟩ := located_of_findChannel sound.consistent.distinct found
  obtain ⟨member, handle, -⟩ := findChannel_eq_some found
  have sole := (sound.consistent.each c member).sole h handle owner
  obtain ⟨rest, -, -⟩ := sound.alone member sole free
  have keys : c.keys = h.name.toList.map Key.name := by
    rw [Channel.keys, sole, handleKeys_cons, Handle.keys, free]
    simp
  have part : (before ++ after).Sublist s.channels := by
    rw [at_.split]
    exact (List.sublist_cons_self c after).append_left before
  rw [Session.split, at_.removeChannel]
  -- Neither of the new handles is an owner, and no push keeps them.
  generalize new : (if producer = consumer then [Handle.named consumer .consumer]
    else [Handle.named producer .producer, Handle.named consumer .consumer]) = handles
  have roles : ∀ h ∈ handles, h.role ≠ .owner ∧ h.keptBy = [] := by
    rw [← new]
    split <;> simp [Handle.named]
  have names : (handleKeys handles).Nodup ∧ handleKeys handles ≠ [] := by
    rw [← new]
    split <;> simp [*]
  have halves : Channel.Sound { c with handles } 0 :=
    ⟨rest, fun other member owner => absurd owner (roles other member).1, names.2⟩
  refine (place (sound.consistent.sublist part) ?_ drops halves (fun h member => (roles h member).2)
    names.1 ?_ .done).imp_right fun done => by rw [done]; rfl
  · intro number
    rw [at_.split, keysOf_append, keysOf_append, keysOf_cons, keys]
    simp
  · rw [at_.split]
    simp [Ledger.Balances, Ledger.single]
    abel

/-- A producer that is cloned gets a further handle on its ring. -/
theorem with_producer (sound : s.Sound) (member : c ∈ s.channels) (handle : h ∈ c.handles)
    (producer : h.role = .producer) (new : String) :
    Channel.Sound { c with handles := c.without (.name new) ++ [.named new .producer] }
      (pushCount c.keys) where
  rest := (sound.consistent.each c member).rest
  sole := by
    intro other reached owner
    have distinct : c.keys.Nodup := (List.nodup_flatMap.mp sound.consistent.distinct).1 c member
    rcases List.mem_append.mp reached with old | newest
    · obtain ⟨before, oldMember, -, role, -⟩ := Channel.mem_without distinct old
      -- An owner would be the only handle, but there is a producer.
      rw [(sound.consistent.each c member).sole before oldMember (role ▸ owner)] at handle
      rw [List.mem_singleton.mp handle, ← role, owner] at producer
      cases producer
    · rw [List.mem_singleton.mp newest] at owner
      cases owner
  reached := by simp [Channel.keys]

theorem cloneProducer (sound : s.Sound) {setup : Setup α} (drops : setup.kind.dropFails = none)
    {name : String} (new : String) (found : s.find? (.name name) = some (c, h))
    (producer : h.role = .producer) :
    (Session.cloneProducer setup s name new c).Balanced s [] [] ∧
      (Session.cloneProducer setup s name new c).result.handed = [] := by
  obtain ⟨before, after, at_⟩ := located_of_findChannel sound.consistent.distinct found
  obtain ⟨member, handle, -⟩ := findChannel_eq_some found
  have distinct : c.keys.Nodup := (List.nodup_flatMap.mp sound.consistent.distinct).1 c member
  have further := sound.with_producer member handle producer new
  have part : (before ++ after).Sublist s.channels := by
    rw [at_.split]
    exact (List.sublist_cons_self c after).append_left before
  have settled := ((sound.consistent.sublist part).but_name new).dropHandle drops
  have keys : (Channel.keys { c with handles := c.without (.name new) ++ [.named new .producer] }) =
      c.keys.filter (· ≠ .name new) ++ [.name new] := by
    rw [Channel.keys, handleKeys_append, Channel.keys_without distinct]
    rfl
  have counted : pushCount (c.keys.filter (· ≠ .name new) ++ [.name new]) = pushCount c.keys := by
    rw [pushCount_append, pushCount_without_name]
    rfl
  -- All keys of the session stay but the new name, which is now that of the new producer.
  have all : (keysOf ((dropHandle setup.kind (.name new) (before ++ after)).channels ++
        [{ c with handles := c.without (.name new) ++ [.named new .producer] }])).Perm
      (.name new :: (keysOf s.channels).filter (· ≠ .name new)) := by
    rw [keysOf_append, settled.keys, keysOf_cons, keysOf_nil, List.append_nil, keys, at_.split,
      keysOf_append, keysOf_append, keysOf_cons, List.filter_append, List.filter_append,
      List.filter_append, ← List.append_assoc]
    refine List.perm_append_singleton _ _ |>.trans (.cons _ ?_)
    rw [List.append_assoc]
    exact List.perm_append_comm.append_left _
  rw [Session.cloneProducer, at_.removeChannel]
  refine ⟨⟨⟨?_, ?_⟩, rfl, ?_, ?_⟩, ?_⟩
  · intro other reached
    rcases List.mem_append.mp reached with old | newest
    · exact settled.consistent.each other old
    · rw [List.mem_singleton.mp newest, keys, counted]
      exact further
  · refine all.nodup_iff.mpr (List.nodup_cons.mpr ⟨?_, sound.consistent.distinct.filter _⟩)
    simp
  · intro number
    refine all.mem_iff.trans ?_
    simp
  · rw [at_.split]
    have unread := settled.unread
    simp [Ledger.Balances, Ledger.single, Session.after, settled.clones] at unread ⊢
    rw [add_left_comm, unread]
    abel
  · simp only [settled.fault]
    rfl

theorem cloneQueue (sound : s.Sound) {setup : Setup α} (drops : setup.kind.dropFails = none)
    {name : String} (new : String) (found : s.find? (.name name) = some (c, h)) :
    (Session.cloneQueue setup s name new c).Balanced s [] [] ∧
      (Session.cloneQueue setup s name new c).result.handed = [] := by
  obtain ⟨before, after, at_⟩ := located_of_findChannel sound.consistent.distinct found
  have old := sound.consistent.each c at_.mem
  obtain ⟨capacity, entries, holds⟩ := old.rest
  obtain ⟨conserves, built⟩ := holds.duplicate_conserves setup.kind
  simp only [Session.cloneQueue, at_.setRing]
  generalize c.ring.duplicate setup.kind = made at conserves built
  have changed : Channel.Sound { c with ring := made.ring } (pushCount c.keys) :=
    ⟨conserves.rest, old.sole, old.reached⟩
  have consistent := sound.consistent.replace at_ changed (List.Sublist.refl _)
  have total := at_.balances conserves
  obtain ⟨outcome, ring, effects⟩ := made
  have under_way (number : Nat) : .push number ∈ keysOf (before ++ { c with ring } :: after) ↔
      .push number ∈ keysOf s.channels := by
    rw [at_.keysOf_ring]
  cases outcome with
  | returned copy =>
    obtain ⟨copies, copyHolds⟩ := built copy rfl
    have balance : (Ledger.single [] [] effects).Balances (unreadIn s.channels)
        (unreadIn (before ++ { c with ring } :: after) + copy.unread) := by
      simpa [Ledger.Balances, Ledger.single, Call.handed] using total
    obtain ⟨balanced, result⟩ := place consistent under_way drops
      (Channel.sound_owned copyHolds c.policy new) (by simp [Handle.named]) (by simp [Channel.keys])
      balance .done
    exact ⟨balanced, by dsimp only; rw [result]; rfl⟩
  | aborted fault => exact ⟨⟨consistent, rfl, under_way, total⟩, rfl⟩
  | waiting => exact ⟨⟨consistent, rfl, under_way, total⟩, rfl⟩

/-! ## Actions -/

/-- A caller whom nobody disturbs finds a ring without admissions. -/
theorem undisturbed (sound : s.Sound) (member : c ∈ s.channels) (only : c.handles = [h])
    (free : h.keptBy = []) : (∃ capacity entries, c.ring.Holds capacity entries 0) ∧
    pushCount c.keys = 0 := by
  refine ⟨(sound.alone member only free).rest, ?_⟩
  rw [Channel.keys, only, pushCount_of_free (by simp [free])]

/-- Who needs the ring for itself is alone with it. -/
theorem alone_of_needsAll (sound : s.Sound) {setup : Setup α} {name : String} {action : Action α}
    {made : Call α (Result α)} (found : s.find? (.name name) = some (c, h))
    (offered : action.isOffered h.role c.policy.isSome = true)
    (free : action.needsAll = true → h.keptBy = []) (call : action.call? setup c h.role = some made)
    (needs : action.needsAll = true) : pushCount c.keys = 0 := by
  obtain ⟨member, handle, -⟩ := findChannel_eq_some found
  have counted := sound.consistent.each c member
  have only : c.handles = [h] := by
    cases action with
    | reserve | clear => exact counted.sole h handle (by simp_all [Action.isOffered])
    | exclusive operation =>
      simp only [Action.call?] at call
      split at call
      · rename_i sole
        obtain ⟨one, handles⟩ := List.length_eq_one_iff.mp (by simpa [Channel.isSole] using sole)
        rw [handles, List.mem_singleton] at handle
        rw [handles, handle]
      · cases call
    | split => cases call
    | _ => cases needs
  exact (sound.undisturbed member only (free needs)).2

/-- An action that is a call on the ring of its handle. -/
theorem called (sound : s.Sound) {setup : Setup α} (drops : setup.kind.dropFails = none)
    {name : String} {action : Action α} {made : Call α (Result α)}
    (found : s.find? (.name name) = some (c, h))
    (offered : action.isOffered h.role c.policy.isSome = true)
    (free : action.needsAll = true → h.keptBy = []) (call : action.call? setup c h.role = some made)
    (finished : resultOfCall made ≠ .waiting) : (s.call (.name name) made id).Balanced s
    (action.given (resultOfCall made))
      (action.handed (s.role? name) (resultOfCall made)) := by
  obtain ⟨capacity, entries, holds⟩ := (sound.consistent.each c (findChannel_eq_some found).1).rest
  obtain ⟨conserves, accepted⟩ := action.call?_conserves drops holds
    (sound.alone_of_needsAll found offered free call) call (outcome_ne_waiting finished)
  have balanced := sound.call found conserves id
  rwa [role?_of_find? found, Action.given, accepted, action.handed_resultOfCall]

/-- Any action of the caller alone. -/
theorem performed (sound : s.Sound) {setup : Setup α} (drops : setup.kind.dropFails = none)
    {name : String} {action : Action α} {reply : Setup α → Reply α (Result α)}
    (performs : Performs s name action reply) (sequential : action.isSequential = true)
    (finished : (reply setup).result ≠ .waiting) :
    (reply setup).Balanced s (action.given (reply setup).result)
      (action.handed (s.role? name) (reply setup).result) := by
  -- What holds of actions that take nothing and hand out nothing.
  have idle {reply : Reply α (Result α)}
    (balanced : reply.Balanced s [] [] ∧ reply.result.handed = [])
      (plain : action.handed (s.role? name) reply.result = reply.result.handed)
      (none_taken : action.values = []) :
      reply.Balanced s (action.given reply.result) (action.handed (s.role? name) reply.result) := by
    rw [Action.given_eq_nil none_taken, plain, balanced.2]
    exact balanced.1
  cases performs with
  | @refused _ result refused =>
    have none_taken : action.given result = [] := by rw [Action.given, if_pos refused]
    change (s.answer result).Balanced s (action.given result) (action.handed _ result)
    rw [none_taken, action.handed_of_refused refused]
    exact sound.unchanged result
  | @looked _ result look stays =>
    change (s.answer result).Balanced s (action.given result) (action.handed _ result)
    rw [stays, Action.given_eq_nil (Action.values_of_look look)]
    exact sound.unchanged result
  | called found offered free call =>
    dsimp only at finished ⊢
    rw [call_eq] at finished ⊢
    have balanced := sound.called drops found offered free (call setup) finished
    rwa [call_eq] at balanced
  | dropped found => exact idle (sound.drop drops name) rfl rfl
  | split found owner free producer consumer =>
    exact idle (sound.split drops producer consumer found owner free) rfl rfl
  | clonedProducer found producer new =>
    exact idle (sound.cloneProducer drops new found producer) rfl rfl
  | clonedQueue found owner new => exact idle (sound.cloneQueue drops new found) rfl rfl
  | handedOver => cases sequential

/-! ## New queues -/

/-- No entry is lost with a new queue, unless a clone fails while it is filled. -/
theorem create (sound : s.Sound) {setup : Setup α} (drops : setup.kind.dropFails = none)
    (name : String) (creation : Creation α)
    (filled : ∀ capacity value, creation = .queue (.filled capacity value) →
      setup.kind.checkSlots capacity = .ok () →
      (setup.kind.cloning.cloneAll (.replicate (capacity - 1) value)).fault = none) :
    (s.create setup name creation).Balanced s creation.values [] := by
  cases creation with
  | queue source =>
    cases source with
    | ofCapacity capacity =>
      exact sound.placeBuilt drops name (.map (Ring.create_conserves setup.kind capacity)) _
    | filled capacity value =>
      exact sound.placeBuilt drops name
        (.map (Ring.filled_conserves setup.kind capacity value (filled capacity value rfl))) _
  | policyQueue source =>
    cases source with
    | ofCapacity capacity policy =>
      exact sound.placeBuilt drops name (.map (PolicyQueue.create_conserves setup.kind capacity _))
        _
    | ofConfig config =>
      rw [Session.create, PolicyQueue.ofConfig]
      cases config.validate with
      | error fault => exact sound.unchanged _
      | ok _ =>
        exact sound.placeBuilt drops name
          (.map (.reported (PolicyQueue.create_conserves setup.kind config.capacity _) _)) _

end Sound

end RingQueue.Session
