import Mathlib.Data.List.Sort
import RingQueue.Proofs.Protocol.Fates

/-!
Every entry that goes in comes out once, and in order, whatever the threads do.

`System.ExactlyOnce` collects what can be said of one state; `exactly_once` is the result. Positions
carry the order: claims and extractions take them one after the other, so an order of positions is
an order of time.
-/
namespace RingQueue.Protocol

open List (Sublist)

variable {α : Type}

/-- What a state tells about a run from ring `r`, which held the unread entries at first, in which
the threads made these calls. -/
structure System.ExactlyOnce (r : Ring α) (unread : List α) (calls : List (List (Request α)))
    (s : System α) : Prop where
  -- Positions are claimed and extracted one after the other.
  claims : (claimsIn s.acts).map Prod.fst = List.range' r.write (claimsIn s.acts).length
  extractions : extractionsIn s.acts = List.range' r.freed (extractionsIn s.acts).length
  -- The entries extracted are a prefix of those at the start and those pushed since.
  extracted_prefix : ∃ values, (extractionsIn s.acts).map s.extracted? = values.map some ∧
    values <+: unread ++ (claimsIn s.acts).map Prod.snd
  extracted_published : ∀ position ∈ extractionsIn s.acts, position < s.ring.visible
  extracted_once : (extractionsIn s.acts).Nodup
  -- Without a call in progress every entry has one fate.
  accounted : (∀ thread ∈ s.threads, thread.point = .idle) →
    (unread ++ (claimsIn s.acts).map Prod.snd).Perm
      (poppedIn s.acts ++ evictedIn s.acts ++ droppedIn s.acts ++ s.ring.unread)
  -- A thread claims positions for its values in the order of its calls.
  claimed_in_order : ∀ (i : Nat) thread, s.threads[i]? = some thread →
    ∃ requests, calls[i]? = some requests ∧
      Sublist ((claimsIn (s.actsOf i)).map Prod.snd) (pushedBy requests)
  -- A thread pops entries of rising positions, and so those of one producer in its order.
  popped_in_order : ∀ (j : Nat) thread, s.threads[j]? = some thread →
    ∃ seen : List (Nat × α), seen.map Prod.snd = thread.responses.filterMap Response.poppedEntry? ∧
      (seen.Pairwise fun a b => a.1 < b.1) ∧
      (∀ e ∈ seen, r.freed ≤ e.1 ∧
        (unread ++ (claimsIn s.acts).map Prod.snd)[e.1 - r.freed]? = some e.2) ∧
      ∀ i, Sublist (seen.filter fun e => e.1 ∈ (claimsIn (s.actsOf i)).map Prod.fst)
        (claimsIn (s.actsOf i))
  -- A push that has returned claimed its position before all that are claimed afterwards.
  returned_first : ∀ later earlier (i : Nat) kept,
    s.history = later ++ (i, .answered (.stored kept)) :: earlier →
    ∃ position a, claimsIn (sinceCall (actsBy i earlier)) = [(position, a)] ∧
      ∀ claim ∈ claimsIn (actsIn later), position < claim.1
  -- A pop that found nothing was in a state in which all that was published had been extracted.
  none_unread : ∀ later earlier (i : Nat),
    s.history = later ++ (i, .answered (.popped none)) :: earlier →
    ∃ t : System α, Reachable (System.start r calls) t ∧ Reachable t s ∧ t.history = earlier ∧
      (∃ thread position, t.threads[i]? = some thread ∧ thread.point = .checkFront position .pop) ∧
      ∀ position, r.freed ≤ position → position < t.ring.visible → position ∈ extractionsIn t.acts

/-! ## Order -/

/-- Lists in the order of their positions are sublists as soon as they are subsets. -/
theorem sublist_of_increasing {first second : List (Nat × α)} (subset : first ⊆ second)
    (rising : first.Pairwise fun a b => a.1 < b.1)
    (rising' : second.Pairwise fun a b => a.1 < b.1) :
    Sublist first second := by
  have antisymm : Std.Antisymm fun a b : Nat × α => a.1 < b.1 :=
    ⟨fun _ _ less more => absurd more (Nat.lt_asymm less)⟩
  have distinct : first.Nodup := by
    apply rising.imp
    rintro a _ less rfl
    exact Nat.lt_irrefl _ less
  exact List.sublist_of_subperm_of_pairwise (List.subperm_of_subset distinct subset) rising rising'

section Runs

variable {r : Ring α} {c : Nat} {unread : List α} {calls : List (List (Request α))} {s : System α}

theorem System.Sound.claims_rise {first : Nat} (h : s.Sound first c unread) :
    (claimsIn s.acts).Pairwise fun a b => a.1 < b.1 := by
  have rising : ((claimsIn s.acts).map Prod.fst).Pairwise (· < ·) := by
    rw [h.claims]
    exact List.pairwise_lt_range'
  exact List.pairwise_map.mp rising

theorem Reachable.seen (h : r.Holds c unread 0) (reachable : Reachable (System.start r calls) s)
    {j : Nat} {thread : Thread α} (found : s.threads[j]? = some thread) :
    ∃ seen : List (Nat × α), seen.map Prod.snd = thread.responses.filterMap Response.poppedEntry? ∧
      (seen.Pairwise fun a b => a.1 < b.1) ∧
      (∀ e ∈ seen, r.freed ≤ e.1 ∧ (s.entries unread)[e.1 - r.freed]? = some e.2) ∧
      ∀ i, Sublist (seen.filter fun e => e.1 ∈ (claimsIn (s.actsOf i)).map Prod.fst)
        (claimsIn (s.actsOf i)) := by
  have sound := reachable.sound h
  have own := actsBy_sublist j s.history
  -- What was popped was emptied before, together with its position.
  obtain ⟨seen, taken, values⟩ := List.sublist_map_iff.mp (reachable.popped_in_order found)
  rw [← answersIn_popped, reachable.answersIn_actsOf found] at values
  have emptied : Sublist seen (emptyingsIn s.acts) := taken.trans (own.filterMap _)
  have extracted : Sublist (seen.map Prod.fst) (extractionsIn s.acts) :=
    (taken.map Prod.fst).trans ((reachable.emptied_in_order found).trans (own.filterMap _))
  -- The positions emptied by one thread are extracted by it in the same order.
  have rising : seen.Pairwise fun a b => a.1 < b.1 := by
    apply List.pairwise_map.mp
    rw [sound.extractions] at extracted
    exact List.Pairwise.sublist extracted List.pairwise_lt_range'
  have entries : ∀ e ∈ seen, r.freed ≤ e.1 ∧ (s.entries unread)[e.1 - r.freed]? = some e.2 := by
    intro e member
    have position := extracted.subset (List.mem_map_of_mem member)
    rw [sound.extractions, List.mem_range'_1] at position
    exact ⟨position.1, reachable.emptied_entry h e.1 e.2 (emptied.subset member)⟩
  refine ⟨seen, values.symm, rising, entries, ?_⟩
  intro i
  have claimed : Sublist (claimsIn (s.actsOf i)) (claimsIn s.acts) :=
    (actsBy_sublist i s.history).filterMap _
  apply sublist_of_increasing ?_ (rising.sublist List.filter_sublist)
    (sound.claims_rise.sublist claimed)
  intro e member
  obtain ⟨inside, mine⟩ := List.mem_filter.mp member
  -- The thread claimed this position, and so for this entry.
  obtain ⟨⟨position, a⟩, claim, same⟩ := List.mem_map.mp (of_decide_eq_true mine)
  have entry := (sound.claimed_entry (claimed.subset claim)).2
  subst same
  rw [(entries e inside).2, Option.some.injEq] at entry
  subst entry
  exact claim

/-! ## Answers -/

section Turns

variable {ring : Ring α} {point point' : Point α} {thread thread' : Thread α} {acts : List (Act α)}

theorem Point.Leads.stored (h : point.Leads r ring acts point') {kept : Option α}
    (answered : .answered (.stored kept) ∈ acts) :
    ∃ position push, point = .publish position push kept ∧
      acts = [.published position, .answered (.stored kept)] := by
  cases h with
  | publish position push kept' =>
    simp only [List.mem_cons, reduceCtorEq, Act.answered.injEq, Response.stored.injEq,
      List.not_mem_nil, or_false, false_or] at answered
    subst answered
    exact ⟨position, push, rfl, rfl⟩
  | giveUp push kept' => cases kept' <;> simp [dropActs] at answered
  | unpin position clones visit => cases visit <;> simp [Visit.response] at answered
  | _ => simp at answered

theorem Point.Leads.popped_none (h : point.Leads r ring acts point')
    (answered : .answered (.popped none) ∈ acts) :
    ∃ position, point = .checkFront position .pop ∧ r.visible ≤ position ∧
      acts = [.answered (.popped none)] := by
  cases h with
  | popNothing position published => exact ⟨position, rfl, published, rfl⟩
  | giveUp push kept' => cases kept' <;> simp [dropActs] at answered
  | unpin position clones visit => cases visit <;> simp [Visit.response] at answered
  | _ => simp at answered

theorem Turn.popped_none (turn : Turn r thread ring thread' acts)
    (answered : .answered (.popped none) ∈ acts) :
    ∃ position, thread.point = .checkFront position .pop ∧ r.visible ≤ position ∧
      acts = [.answered (.popped none)] := by
  cases turn with
  | call => simp at answered
  | access todo answers leads => exact leads.popped_none answered

end Turns

theorem Reachable.returned_first (h : r.Holds c unread 0)
    (reachable : Reachable (System.start r calls) s) {later earlier : List (Nat × Act α)} {i : Nat}
    {kept : Option α} (split : s.history = later ++ (i, .answered (.stored kept)) :: earlier) :
    ∃ position a, claimsIn (sinceCall (actsBy i earlier)) = [(position, a)] ∧
      ∀ claim ∈ claimsIn (actsIn later), position < claim.1 := by
  obtain ⟨t, reached, -, thread, ring, thread', before, after, found, turn, same⟩ :=
    reachable.moment rfl split
  rcases turn.leads with ⟨_, -, -, -, -, called⟩ | ⟨-, -, leads⟩
  · -- To take up a call answers nothing.
    have answer : Act.answered (.stored kept) ∈ [.called] :=
      called ▸ List.mem_append_right before List.mem_cons_self
    simp at answer
  · obtain ⟨position, push, point, acts⟩ :=
      leads.stored (List.mem_append_right before List.mem_cons_self)
    have owned := reached.claimed_in_call found (by rw [point]; nofun)
    have no_claim : claimsIn before = [] := by
      have none : claimsIn (before ++ .answered (.stored kept) :: after) = [] := by
        rw [acts]
        rfl
      rw [claimsIn_append, List.append_eq_nil_iff] at none
      exact none.1
    have claimed : claimsIn (sinceCall (actsBy i earlier)) = [(position, push.value)] := by
      rw [same, actsBy_turn, sinceCall_append _ fun act member =>
        leads.not_call act (List.mem_append_left _ member), claimsIn_append, no_claim,
        List.append_nil]
      rw [point] at owned
      exact owned
    -- All claims of the history stand in the order of their positions.
    have before_it : (position, push.value) ∈ claimsIn (actsIn earlier) := by
      have kept : Sublist (claimsIn (sinceCall (actsBy i earlier))) (claimsIn (actsIn earlier)) :=
        ((sinceCall_sublist _).trans (actsBy_sublist i earlier)).filterMap _
      rw [claimed] at kept
      exact kept.subset (List.mem_singleton_self _)
    have rising := (reachable.sound h).claims_rise
    rw [System.acts, split, actsIn_append, actsIn_cons, claimsIn_append, claimsIn_append,
      List.pairwise_append] at rising
    refine ⟨position, push.value, claimed, ?_⟩
    intro claim after_it
    exact rising.2.2 _ (List.mem_append_left _ before_it) claim after_it

theorem Reachable.none_unread (h : r.Holds c unread 0)
    (reachable : Reachable (System.start r calls) s) {later earlier : List (Nat × Act α)} {i : Nat}
    (split : s.history = later ++ (i, .answered (.popped none)) :: earlier) :
    ∃ t : System α, Reachable (System.start r calls) t ∧ Reachable t s ∧ t.history = earlier ∧
      (∃ thread position, t.threads[i]? = some thread ∧ thread.point = .checkFront position .pop) ∧
      ∀ position, r.freed ≤ position → position < t.ring.visible →
        position ∈ extractionsIn t.acts := by
  obtain ⟨t, reached, there, thread, ring, thread', before, after, found, turn, same⟩ :=
    reachable.moment rfl split
  obtain ⟨position, point, published, acts⟩ :=
    turn.popped_none (List.mem_append_right before List.mem_cons_self)
  have sound := reached.sound h
  have knows := sound.knows thread (List.mem_of_getElem? found)
  rw [point] at knows
  -- The front has reached the position that was looked at, and nothing further on is published.
  have known : position ≤ t.front r.freed := knows
  have alone : before = [] := by
    cases before with
    | nil => rfl
    | cons act before =>
      have length := congrArg List.length acts
      simp only [List.cons_append, List.length_cons, List.length_append, List.length_nil] at length
      omega
  subst alone
  refine ⟨t, reached, there, same.symm, ⟨thread, position, found, point⟩, ?_⟩
  intro q above below
  rw [sound.extractions, List.mem_range'_1]
  rw [System.front] at known
  omega

end Runs

/-! ## The result -/

theorem exactly_once {r : Ring α} {c : Nat} {unread : List α} (h : r.Holds c unread 0)
    (calls : List (List (Request α))) {s : System α}
    (reachable : Reachable (System.start r calls) s) : s.ExactlyOnce r unread calls where
  claims := by
    have sound := reachable.sound h
    have write : r.write = r.freed + unread.length := h.write.trans h.visible
    rw [write]
    exact sound.claims
  extractions := (reachable.sound h).extractions
  extracted_prefix := ⟨_, reachable.extracted_prefix h, List.take_prefix _ _⟩
  extracted_published := by
    intro position extracted
    have sound := reachable.sound h
    have front_le := sound.cursors.front_le
    rw [sound.extractions, List.mem_range'_1] at extracted
    rw [System.front] at front_le
    omega
  extracted_once := by
    rw [(reachable.sound h).extractions]
    exact List.nodup_range'
  accounted := reachable.accounted h
  claimed_in_order _ _ := reachable.claimed_in_order
  popped_in_order _ _ := reachable.seen h
  returned_first _ _ _ _ := reachable.returned_first h
  none_unread _ _ _ := reachable.none_unread h

/-- In a ring of one slot two pushes evict the entries before theirs, and one entry is popped. -/
theorem exactly_once_with_evictions :
    (Ring.empty 1 : Ring Nat).Holds 1 [] 0 ∧
    ∃ s, Reachable (System.start (Ring.empty 1)
        [[.pushWaiting 7, .pushForced 8], [.pushForced 9], [.pop, .pop]]) s ∧
      s.isDone = true ∧ poppedIn s.acts = [9] ∧ evictedIn s.acts = [7, 8] ∧
      s.ExactlyOnce (Ring.empty 1) []
        [[.pushWaiting 7, .pushForced 8], [.pushForced 9], [.pop, .pop]] :=
  have reached := reachable_run .start
    (List.replicate 30 0 ++ List.replicate 20 1 ++ List.replicate 12 2)
  ⟨Ring.holds_empty 1, _, reached, by decide +kernel, by decide +kernel, by decide +kernel,
    exactly_once (Ring.holds_empty 1) _ reached⟩

end RingQueue.Protocol
