import RingQueue.Proofs.Session.Clones

/-!
Pushes with a constructor: how they begin, and how they end.

A push begins with a request for room. If room is granted, the push keeps its handle under a number,
so that the room is there when the constructor is done, whatever steps the constructor runs.
-/
namespace RingQueue.Session

variable {α β : Type}

/-- The policy under which a push asks for room. -/
def Terms.policy (terms : Terms) (c : Channel α) : OverflowPolicy :=
  match terms with
  | .asked policy => policy
  | .configured => c.overflowPolicy

/-- What a push answers whose request is denied. -/
def Terms.refusal : Terms → Result α
  | .asked _ => .constructed false
  | .configured => .pushed (.error .queueIsFull)

/-- The channel behind a name once a push that was granted room keeps its handle. -/
def Channel.entered (c : Channel α) (name : String) (number : Nat) (ring : Ring α) : Channel α :=
  Channel.keeping { c with ring } (.name name) number

/-- How a push can begin. -/
inductive Beginning (s : Session α) (name : String) (terms : Terms) : Reply α (Begun α) → Prop where
  | refused : Beginning s name terms (s.answer (.ended .unavailable))
  | denied {c : Channel α} {h : Handle} {capacity : Nat} {entries : List α}
      (found : s.find? (.name name) = some (c, h))
      (holds : c.ring.Holds capacity entries (pushCount c.keys))
      (requested : c.ring.Requested capacity entries (pushCount c.keys) (terms.policy c)
        (.returned .denied c.ring [])) :
      Beginning s name terms (s.answer (.ended terms.refusal))
  | waiting (policy : OverflowPolicy) (capacity : Nat) :
      Beginning s name terms ⟨s, .ended .waiting, policy.waitingLog capacity⟩
  | granted {c : Channel α} {h : Handle} {before after : List (Channel α)} {capacity : Nat}
      {entries : List α} {evicted : Option α} {ring : Ring α} {effects : List (Effect α)}
      (found : s.find? (.name name) = some (c, h))
      (place : Located (.name name) s.channels before c after)
      (holds : c.ring.Holds capacity entries (pushCount c.keys))
      (requested : c.ring.Requested capacity entries (pushCount c.keys) (terms.policy c)
        (.returned (.granted evicted) ring effects)) :
      Beginning s name terms
        ⟨⟨before ++ c.entered name s.pushes ring :: after, s.blocks.afterAll effects, s.pushes + 1⟩,
          .granted s.pushes (terms.policy c) evicted, effects⟩

/-- The ring that a channel has already changes nothing. -/
theorem Located.setRing_self {key : Key} {channels before after : List (Channel α)} {c : Channel α}
    (place : Located key channels before c after) :
    Session.setRing key c.ring channels = channels := by
  rw [place.setRing, ← place.split]

/-- A push that waits has changed nothing, though it may say that it waits. -/
theorem after_waitingLog (s : Session α) (policy : OverflowPolicy) (capacity : Nat) :
    s.after s.channels (policy.waitingLog capacity) = s := by
  cases policy <;> rfl

/-- Only the channel behind the name changes while room is asked for and the handle is kept. -/
theorem Located.entered {name : String} {channels before after : List (Channel α)} {c : Channel α}
    (place : Located (.name name) channels before c after) (ring : Ring α) (number : Nat) :
    ((Session.setRing (.name name) ring channels).map fun c =>
      if c.isReached (.name name) then c.keeping (.name name) number else c) =
      before ++ c.entered name number ring :: after := by
  have replaced : Located (.name name) (before ++ { c with ring } :: after) before
    { c with ring } after :=
    place.replaced rfl
  rw [place.setRing]
  exact replaced.map fun c => c.keeping (.name name) number

section Request

variable {s : Session α} {name : String} {terms : Terms} {c : Channel α} {h : Handle}

/-- A push is refused by consumers, and by queues that push under other terms. -/
def Handle.refuses (h : Handle) (c : Channel α) (terms : Terms) : Prop :=
  h.role = .consumer ∨ c.policy.isSome ≠ (terms = .configured)

theorem beginEmplace_refused (found : s.find? (.name name) = some (c, h))
    (refuses : h.refuses c terms) :
    s.beginEmplace name terms = s.answer (.ended .unavailable) := by
  simp only [beginEmplace, found]
  exact if_pos refuses

theorem beginEmplace_granted (found : s.find? (.name name) = some (c, h))
    (accepts : ¬ h.refuses c terms) {evicted : Option α} {ring : Ring α} {effects : List (Effect α)}
    (made : c.ring.request (terms.policy c) = .returned (.granted evicted) ring effects) :
    s.beginEmplace name terms =
      ⟨⟨(setRing (.name name) ring s.channels).map fun c =>
          if c.isReached (.name name) then c.keeping (.name name) s.pushes else c,
        s.blocks.afterAll effects, s.pushes + 1⟩, .granted s.pushes (terms.policy c) evicted,
          effects⟩ := by
  cases terms <;>
  · simp only [Terms.policy] at made
    simp only [beginEmplace, found, made]
    exact if_neg (by simpa [Handle.refuses] using accepts)

theorem beginEmplace_denied (found : s.find? (.name name) = some (c, h))
    (accepts : ¬ h.refuses c terms) {ring : Ring α} {effects : List (Effect α)}
    (made : c.ring.request (terms.policy c) = .returned .denied ring effects) :
    s.beginEmplace name terms =
      ⟨s.after (setRing (.name name) ring s.channels) effects, .ended terms.refusal, effects⟩ := by
  cases terms <;>
  · simp only [Terms.policy] at made
    simp only [beginEmplace, found, made]
    exact if_neg (by simpa [Handle.refuses] using accepts)

theorem beginEmplace_waiting (found : s.find? (.name name) = some (c, h))
    (accepts : ¬ h.refuses c terms) {ring : Ring α} {effects : List (Effect α)}
    (made : c.ring.request (terms.policy c) = ⟨.waiting, ring, effects⟩) :
    s.beginEmplace name terms =
      ⟨s.after (setRing (.name name) ring s.channels) effects, .ended .waiting, effects⟩ := by
  cases terms <;>
  · simp only [Terms.policy] at made
    simp only [beginEmplace, found, made]
    exact if_neg (by simpa [Handle.refuses] using accepts)

end Request

theorem Sound.beginning {s : Session α} (sound : s.Sound) (name : String) (terms : Terms) :
    Beginning s name terms (s.beginEmplace name terms) := by
  cases found : s.find? (.name name) with
  | none =>
    simp only [beginEmplace, found]
    exact .refused
  | some reached =>
    obtain ⟨c, h⟩ := reached
    by_cases refuses : h.refuses c terms
    · rw [beginEmplace_refused found refuses]
      exact .refused
    · obtain ⟨before, after, place⟩ := located_of_findChannel sound.consistent.distinct found
      obtain ⟨capacity, entries, holds⟩ := (sound.consistent.each c place.mem).rest
      have requested := holds.requested (terms.policy c)
      generalize made : c.ring.request (terms.policy c) = call at requested
      cases requested with
      | room room admitted =>
        rw [beginEmplace_granted found refuses made, place.entered]
        exact .granted found place holds (.room room admitted)
      | evicting kind contents full admitted =>
        rw [beginEmplace_granted found refuses made, place.entered]
        exact .granted found place holds (.evicting kind contents full admitted)
      | denied kind full =>
        rw [beginEmplace_denied found refuses made, place.setRing_self]
        exact .denied found holds (.denied kind full)
      | waiting kind full =>
        rw [beginEmplace_waiting found refuses made, place.setRing_self, after_waitingLog]
        exact .waiting (terms.policy c) capacity

/-- What a step comes to: the session stays sound, all values are accounted for, and clones are made
of what there was or came in. -/
structure Continues (cloning : Cloning α) (s t : Session α) (pushes : Nat)
    (l : Ledger α) : Prop where
  sound : t.Sound
  pushes : t.pushes = pushes
  balance : l.Balances (unreadIn s.channels) (unreadIn t.channels)
  copies : l.Copies cloning (unreadIn s.channels)

/-- The channel behind a key while one push more keeps its handle. -/
theorem Channel.Sound.keeping {c : Channel α} {reserved : Nat} (sound : c.Sound reserved)
    (distinct : c.keys.Nodup) {key : Key} (reached : key ∈ c.keys) (number : Nat) :
    (c.keeping key number).Sound reserved ∧ (c.keeping key number).keys.Perm
      (.push number :: c.keys) := by
  have keys : (c.keeping key number).keys.Perm (.push number :: c.keys) :=
    handleKeys_kept c.handles distinct reached number
  refine ⟨⟨sound.rest, ?_, ?_⟩, keys⟩
  · intro h member owner
    obtain ⟨old, oldMember, kept⟩ := List.mem_map.mp member
    have role : old.role = .owner := by
      rw [← owner, ← kept]
      split <;> rfl
    change c.handles.map _ = [h]
    rw [sound.sole old oldMember role, List.map_singleton, kept]
  · intro none_left
    rw [none_left] at keys
    exact absurd keys.nil_eq (by simp)

/-- A channel that one push more keeps has one key more, and its ring counts it. -/
theorem Sound.entered {s : Session α} (sound : s.Sound) {name : String}
    {before after : List (Channel α)} {c : Channel α}
    (place : Located (.name name) s.channels before c after) {ring : Ring α}
    (rest : ∃ capacity entries, ring.Holds capacity entries (pushCount c.keys + 1)) :
    Session.Sound ⟨before ++ c.entered name s.pushes ring :: after, s.blocks, s.pushes + 1⟩ := by
  have old := sound.consistent.each c place.mem
  have distinct : c.keys.Nodup := (List.nodup_flatMap.mp sound.consistent.distinct).1 c place.mem
  have changed : Channel.Sound { c with ring } (pushCount c.keys + 1) :=
    ⟨rest, old.sole, old.reached⟩
  obtain ⟨kept, keptKeys⟩ := changed.keeping distinct place.here s.pushes
  have keys : (keysOf (before ++ c.entered name s.pushes ring :: after)).Perm
      (.push s.pushes :: keysOf s.channels) := by
    rw [place.split, keysOf_append, keysOf_append, keysOf_cons, keysOf_cons]
    exact ((keptKeys.append_right _).append_left _).trans List.perm_middle
  have fresh : Key.push s.pushes ∉ keysOf s.channels := by
    rw [sound.under_way]
    exact Nat.lt_irrefl _
  refine ⟨⟨?_, ?_⟩, ?_⟩
  · intro other member
    rcases List.mem_append.mp member with earlier | later
    · exact sound.consistent.each other (place.split ▸ List.mem_append_left _ earlier)
    · rcases List.mem_cons.mp later with rfl | later
      · have counted : pushCount (c.entered name s.pushes ring).keys = pushCount c.keys + 1 :=
          (pushCount_perm keptKeys).trans (List.countP_cons_of_pos rfl)
        rw [counted]
        exact kept
      · exact sound.consistent.each other
          (place.split ▸ List.mem_append_right _ (List.mem_cons_of_mem _ later))
  · exact keys.nodup_iff.mpr (List.nodup_cons.mpr ⟨fresh, sound.consistent.distinct⟩)
  · intro number
    refine keys.mem_iff.trans ?_
    rw [List.mem_cons, sound.under_way, Key.push.injEq]
    change number = s.pushes ∨ number < s.pushes ↔ number < s.pushes + 1
    omega

/-- A push that ends before its constructor runs has changed nothing. -/
theorem Sound.begun_ended {s : Session α} (sound : s.Sound) {name : String} {terms : Terms}
    {result : Result α} (ended : (s.beginEmplace name terms).result = .ended result)
    (finished : result ≠ .waiting) :
    s.beginEmplace name terms = s.answer (.ended result) ∧ result.handed = [] := by
  have beginning := sound.beginning name terms
  generalize s.beginEmplace name terms = begun at beginning ended
  cases beginning with
  | refused =>
    cases ended
    exact ⟨rfl, rfl⟩
  | denied =>
    cases ended
    exact ⟨rfl, by cases terms <;> rfl⟩
  | waiting =>
    cases ended
    exact absurd rfl finished
  | granted => cases ended

/-- A push that was granted room has the evicted entry in its hands. -/
theorem Sound.begun_granted {s : Session α} (sound : s.Sound) (cloning : Cloning α) {name : String}
    {terms : Terms} {number : Nat} {policy : OverflowPolicy} {evicted : Option α}
    (granted : (s.beginEmplace name terms).result = .granted number policy evicted) :
    number = s.pushes ∧ (policy ≠ .overwrite → evicted = none) ∧
      Continues cloning s (s.beginEmplace name terms).session (s.pushes + 1)
        (.single [] evicted.toList (s.beginEmplace name terms).effects) := by
  have beginning := sound.beginning name terms
  generalize s.beginEmplace name terms = begun at beginning granted ⊢
  cases beginning with
  | refused => cases granted
  | denied => cases granted
  | waiting => cases granted
  | granted found place holds requested =>
    cases granted
    have conserves := requested.conserves holds
    obtain ⟨consistent, under_way⟩ := sound.entered place conserves.rest
    refine ⟨rfl, requested.evicted_eq_none, ⟨consistent, under_way⟩, rfl, ?_, .single ?_⟩
    · have total := place.balances conserves
      rw [unreadIn_append, unreadIn_cons] at total ⊢
      exact total
    · rw [requested.clones_eq_nil]
      exact .nothing cloning _

/-! ## The end of a push -/

section Ending

variable {s : Session α} {number : Nat} {before after : List (Channel α)} {c : Channel α}

/-- The ring of a push that is over counts one admission less, and then its key is given up. -/
theorem Sound.ending (sound : s.Sound) (last : s.pushes = number + 1)
    (place : Located (.push number) s.channels before c after) {k : EntryKind α}
    (drops : k.dropFails = none) {made : Call α β} {given : List α} {out : β → List α}
    (conserves : made.Conserves c.ring given out (pushCount (c.keys.filter (· ≠ .push number))))
    (silent : Effect.clones made.effects = []) :
    let dropped := dropHandle k (.push number) (setRing (.push number) made.ring s.channels)
    dropped.fault = none ∧
      Continues k.cloning s ⟨dropped.channels, (s.blocks.afterAll made.effects).afterAll
        dropped.effects, number⟩
        number (.single given (made.handed out) (made.effects ++ dropped.effects)) := by
  have old := sound.consistent.each c place.mem
  have uncounted : Channel.Sound { c with ring := made.ring } _ :=
    ⟨conserves.rest, old.sole, old.reached⟩
  have settled := (sound.consistent.uncount place uncounted).dropHandle drops
  rw [place.setRing]
  refine ⟨settled.fault, ⟨settled.consistent, ?_⟩, rfl, ?_, .single ?_⟩
  · intro other
    rw [settled.keys, place.keysOf_ring, List.mem_filter, sound.under_way, last]
    simp
    omega
  · have total := place.balances conserves
    have unread := settled.unread
    unfold Ledger.Balances Ledger.single at total ⊢
    simp only [Effect.clones_append, settled.clones, List.append_nil, Effect.drops_append,
      ← Multiset.coe_add] at total ⊢
    rw [total, unread]
    abel
  · rw [Effect.clones_append, silent, settled.clones]
    exact .nothing k.cloning _

/-- A push that was granted room is ended by publishing its entry or by giving the room back. -/
theorem Sound.endEmplace (sound : s.Sound) (last : s.pushes = number + 1) {setup : Setup α}
    (drops : setup.kind.dropFails = none) (terms : Terms) {policy : OverflowPolicy}
    {evicted : Option α} (kind : policy ≠ .overwrite → evicted = none) (made : Except Fault α) :
    Continues setup.kind.cloning s (s.endEmplace setup number terms policy evicted made).session
      number
      (.single (evicted.toList ++ made.toOption.toList)
        (s.endEmplace setup number terms policy evicted made).result.handed
        (s.endEmplace setup number terms policy evicted made).effects) := by
  have kept : .push number ∈ keysOf s.channels := (sound.under_way number).mpr (by omega)
  obtain ⟨⟨c, h⟩, found⟩ := findChannel_isSome kept
  obtain ⟨before, after, place⟩ := located_of_findChannel sound.consistent.distinct found
  obtain ⟨capacity, entries, holds⟩ := (sound.consistent.each c place.mem).rest
  have distinct : c.keys.Nodup := (List.nodup_flatMap.mp sound.consistent.distinct).1 c place.mem
  have counted := pushCount_without distinct place.here
  rw [← counted] at holds
  have found : s.find? (.push number) = some (c, h) := found
  cases terms with
  | asked asked =>
    have conserves : (c.ring.settle evicted made).Conserves c.ring
        (evicted.toList ++ made.toOption.toList) (fun pushed => (showEmplace policy pushed).handed)
        (pushCount (c.keys.filter (· ≠ .push number))) := by
      refine holds.settle_conserves evicted made ?_
      cases policy with
      | overwrite => rfl
      | reject => rw [kind nofun]; rfl
      | block => rw [kind nofun]; rfl
    obtain ⟨fault, continues⟩ := sound.ending last place drops conserves
      (c.ring.settle_clones evicted made)
    rw [← Sound.call_handed] at continues
    simp only [Session.endEmplace, found]
    change Continues _ _ _ _ (.single _ (resultOf (dropHandle _ _ (setRing _ _ _)).fault _).handed
      _)
    rw [fault]
    exact continues
  | configured =>
    have conserves : ((c.ring.settle evicted made).andThen (Ring.report setup.kind none)).Conserves
      c.ring
        (evicted.toList ++ made.toOption.toList)
          (fun result => (Result.pushed result : Result α).handed)
        (pushCount (c.keys.filter (· ≠ .push number))) :=
          holds.settle_report_conserves drops evicted made
    obtain ⟨fault, continues⟩ := sound.ending last place drops conserves
      (c.ring.settle_report_clones setup.kind evicted made)
    rw [← Sound.call_handed] at continues
    simp only [Session.endEmplace, found]
    change Continues _ _ _ _ (.single _ (resultOf (dropHandle _ _ (setRing _ _ _)).fault _).handed
      _)
    rw [fault]
    exact continues

end Ending

end RingQueue.Session
