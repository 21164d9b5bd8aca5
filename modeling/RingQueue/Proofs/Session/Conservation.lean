import RingQueue.Proofs.Session.Pushes

/-!
No session loses or doubles a value.

Whatever the steps, each value that was given, cloned or made is unread in one ring, in the hands of
a push under way, handed out, or dropped (`values_conserved`). What one step preserves follows from
the actions and from the beginnings and ends of pushes; a constructor runs steps of its own in
between.
-/
namespace RingQueue.Session

variable {α : Type}

/-! ## Steps -/

/-- Whether no clone fails while the creation fills a ring, which would lose the clones before it.
-/
def Creation.IsFilled (setup : Setup α) : Creation α → Prop
  | .queue (.filled capacity value) => setup.kind.checkSlots capacity = .ok () →
    (setup.kind.cloning.cloneAll (.replicate (capacity - 1) value)).fault = none
  | _ => True

mutual

/-- Steps of the caller alone, constructors included, that do not fail to fill a ring. -/
def Step.IsOrdinary (setup : Setup α) : Step α → Prop
  | .create _ creation => creation.IsFilled setup
  | .act _ action => action.isSequential = true
  | .emplace _ _ during _ => Step.AreOrdinary setup during

def Step.AreOrdinary (setup : Setup α) : List (Step α) → Prop
  | [] => True
  | step :: rest => step.IsOrdinary setup ∧ Step.AreOrdinary setup rest

end

theorem Continues.trans {cloning : Cloning α} {s t u : Session α} {m n : Nat}
    {first second : Ledger α} (before : Continues cloning s t m first)
    (after : Continues cloning t u n second) :
    Continues cloning s u n (first + second) :=
  ⟨after.sound, after.pushes, before.balance.add after.balance,
    before.copies.add before.balance after.copies⟩

/-- What a push held in its hands while its constructor ran came out of the rings before, and is
settled after it. -/
theorem Ledger.Balances.settle {l : Ledger α} {held given handed : List α}
    {before after : List (Effect α)} {first last : Multiset α}
    (balances : (single [] held before + l + single (held ++ given) handed after).Balances
      first last) :
    (l + single given handed (before ++ after)).Balances first last := by
  change first + (([] : List α) + l.given + (held ++ given : List α)) +
    (Effect.clones before + l.cloned + Effect.clones after) =
    last + (held + l.handed + handed) + (Effect.drops before + l.dropped + Effect.drops
      after) at balances
  change first + (l.given + given) + (l.cloned + Effect.clones (before ++ after)) =
    last + (l.handed + handed) + (l.dropped + Effect.drops (before ++ after))
  rw [Effect.clones_append, Effect.drops_append]
  simp only [← Multiset.coe_add, Multiset.coe_nil] at balances ⊢
  refine add_left_cancel (a := (held : Multiset α)) ?_
  calc
    held + (first + (l.given + given) + (l.cloned + (Effect.clones before + Effect.clones after)))
      = first + (0 + l.given + (held + given)) +
        (Effect.clones before + l.cloned + Effect.clones after) := by abel
    _ = last + (held + l.handed + handed) +
      (Effect.drops before + l.dropped + Effect.drops after) :=
      balances
    _ = held + (last + (l.handed + handed) +
      (l.dropped + (Effect.drops before + Effect.drops after))) := by
      abel

/-- What a push held in its hands was there before, so that clones of it go back to that. -/
theorem Ledger.Copies.settle {l : Ledger α} {cloning : Cloning α} {held given handed : List α}
    {before after : List (Effect α)} {first between : Multiset α}
    (entered : (Ledger.single [] held before).Balances first between)
    (began : (Ledger.single [] held before).Copies cloning first)
    (copies : (Ledger.single [] held before + l +
      Ledger.single (held ++ given) handed after).Copies cloning first) :
    (l + Ledger.single given handed (before ++ after)).Copies cloning first := by
  have inside {a : α} (member : a ∈ (held : Multiset α)) : cloning.Descends first a := by
    have there : a ∈ between + held + (Effect.drops before : Multiset α) :=
      Multiset.mem_add.mpr (.inl (Multiset.mem_add.mpr (.inr member)))
    have balance : first + 0 + (Effect.clones before : Multiset α) =
      between + held + (Effect.drops before : Multiset α) := entered
    rw [← balance] at there
    exact (began.descends there).mono (Multiset.subset_of_le (add_zero first).le)
  intro b member
  have earlier : b ∈ (Effect.clones before + l.cloned + Effect.clones after : Multiset α) := by
    change b ∈ l.cloned + (Effect.clones (before ++ after) : Multiset α) at member
    rw [Effect.clones_append, ← Multiset.coe_add] at member
    simp only [Multiset.mem_add] at member ⊢
    tauto
  refine (copies b earlier).trans fun a present => ?_
  change a ∈ first + (0 + l.given + (held ++ given : List α)) at present
  simp only [← Multiset.coe_add, Multiset.mem_add, Multiset.notMem_zero, false_or] at present
  rcases present with old | made | taken | new
  · exact .original (Multiset.mem_add.mpr (.inl old))
  · exact .original (Multiset.mem_add.mpr (.inr (Multiset.mem_add.mpr (.inl made))))
  · exact (inside taken).mono (Multiset.subset_of_le (Multiset.le_add_right _ _))
  · exact .original (Multiset.mem_add.mpr (.inr (Multiset.mem_add.mpr (.inr new))))

mutual

theorem Step.run_continues {setup : Setup α} (drops : setup.kind.dropFails = none) :
    (step : Step α) → (s : Session α) → s.Sound → step.IsOrdinary setup →
      (Step.run setup step s).2.isWaiting = false →
      Continues setup.kind.cloning s (Step.run setup step s).1 s.pushes
        (step.ledger setup s (Step.run setup step s).2)
  | .create name creation, s, sound, ordinary, _ => by
    have balanced := sound.create drops name creation (by rintro capacity value rfl; exact ordinary)
    exact ⟨balanced.sound sound, balanced.pushes, balanced.balance,
      .single (create_copies setup s name creation)⟩
  | .act name action, s, sound, ordinary, finished => by
    have finished : (s.perform setup name action).result ≠ .waiting := by
      intro waiting
      simp [Step.run, Answer.isWaiting, Answer.report, waiting] at finished
    have performed := performs s name action
    have balanced := sound.performed drops performed ordinary finished
    exact ⟨balanced.sound sound, balanced.pushes, balanced.balance,
      .single (sound.performed_copies performed setup _)⟩
  | .emplace name terms during made, s, sound, ordinary, finished => by
    unfold Step.run at finished ⊢
    cases began : (s.beginEmplace name terms).result with
    | ended result =>
      have finished : result ≠ .waiting := by
        rintro rfl
        simp [began, Answer.isWaiting, Answer.report] at finished
      obtain ⟨unchanged, nothing⟩ := sound.begun_ended began finished
      simp only [unchanged]
      refine ⟨sound, rfl, ?_, .single (.nothing _ _)⟩
      change (Ledger.single [] result.handed []).Balances _ _
      rw [nothing]
      exact .zero _
    | granted number policy evicted =>
      obtain ⟨rfl, kind, entered⟩ := sound.begun_granted setup.kind.cloning began
      simp only [began] at finished ⊢
      cases inside : (Step.runAll setup during (s.beginEmplace name terms).session).2.any
          Answer.isWaiting with
      | true =>
        rw [if_pos inside] at finished
        cases finished
      | false =>
        have ran := Step.runAll_continues drops during _ entered.sound ordinary inside
        rw [entered.pushes] at ran
        have ended := ran.sound.endEmplace ran.pushes drops terms kind made
        rw [if_neg (by simp)]
        have whole := (entered.trans ran).trans ended
        exact ⟨whole.sound, whole.pushes, whole.balance.settle, .settle entered.balance
          entered.copies whole.copies⟩

theorem Step.runAll_continues {setup : Setup α} (drops : setup.kind.dropFails = none) :
    (steps : List (Step α)) → (s : Session α) → s.Sound → Step.AreOrdinary setup steps →
      (Step.runAll setup steps s).2.any Answer.isWaiting = false →
      Continues setup.kind.cloning s (Step.runAll setup steps s).1 s.pushes
        (Step.ledgers setup steps s (Step.runAll setup steps s).2)
  | [], s, sound, _, _ => ⟨sound, rfl, .zero _, .zero _ _⟩
  | step :: rest, s, sound, ordinary, finished => by
    unfold Step.runAll at finished ⊢
    dsimp only at finished ⊢
    cases first : (Step.run setup step s).2.isWaiting with
    | true =>
      rw [first] at finished
      simp [first] at finished
    | false =>
      have one := Step.run_continues drops step s sound ordinary.1 first
      simp only [first, Bool.false_eq_true, if_false, List.any_cons, Bool.false_or] at finished ⊢
      have others := Step.runAll_continues drops rest _ one.sound ordinary.2 finished
      rw [one.pushes] at others
      exact one.trans others

end

/-! ## Sessions -/

/-- What steps lead to, with what they came to; also inside constructors, while the pushes that run
them hold the entries that made way. -/
inductive Reached (setup : Setup α) : Session α → Ledger α → List (Option α) → Prop where
  | start : Reached setup .empty 0 []
  | step {s : Session α} {l : Ledger α} {held : List (Option α)} (step : Step α) :
      Reached setup s l held → step.IsOrdinary setup → (Step.run setup step s).2.isWaiting = false →
      Reached setup (Step.run setup step s).1 (l + step.ledger setup s (Step.run setup step s).2)
        held
  | enter {s : Session α} {l : Ledger α} {held : List (Option α)} (name : String) (terms : Terms)
      {number : Nat} {policy : OverflowPolicy} {evicted : Option α} :
      Reached setup s l held → (s.beginEmplace name terms).result = .granted number policy evicted →
      Reached setup (s.beginEmplace name terms).session
        (l + .single [] [] (s.beginEmplace name terms).effects) (evicted :: held)

/-- What is left where it is changes no balance. -/
theorem Ledger.Balances.frame {l : Ledger α} {before after : Multiset α}
    (balances : l.Balances before after) (rest : Multiset α) :
    l.Balances (before + rest) (after + rest) := by
  unfold Balances at balances ⊢
  calc
    before + rest + l.given + l.cloned = before + l.given + l.cloned + rest := by abel
    _ = after + rest + l.handed + l.dropped := by rw [balances]; abel

/-- All that ever came in is unread, in the hands of a push, or has left, and clones are made of it.
-/
theorem Reached.balances {setup : Setup α} (drops : setup.kind.dropFails = none) {s : Session α}
    {l : Ledger α} {held : List (Option α)} (reached : Reached setup s l held) :
    s.Sound ∧ s.pushes = held.length ∧
      l.Balances 0 (unreadIn s.channels + (held.reduceOption : Multiset α)) ∧
      l.Copies setup.kind.cloning 0 := by
  have there (contents rest : Multiset α) : contents ⊆ contents + rest :=
    Multiset.subset_of_le (Multiset.le_add_right _ _)
  induction reached with
  | start => exact ⟨.empty, rfl, .zero _, .zero _ _⟩
  | step step before ordinary finished ih =>
    obtain ⟨sound, pushes, balances, copies⟩ := ih
    have continues := step.run_continues drops _ sound ordinary finished
    exact ⟨continues.sound, continues.pushes.trans pushes, balances.add (continues.balance.frame _),
      copies.add balances (continues.copies.mono (there _ _))⟩
  | @enter s l held name terms _ _ evicted before granted ih =>
    obtain ⟨sound, pushes, balances, copies⟩ := ih
    obtain ⟨-, -, continues⟩ := sound.begun_granted setup.kind.cloning granted
    refine ⟨continues.sound, by rw [continues.pushes, pushes, List.length_cons], balances.add ?_,
      copies.add balances (Ledger.Copies.mono continues.copies (there _ _))⟩
    have hands : (evicted :: held).reduceOption = evicted.toList ++ held.reduceOption := by
      cases evicted <;> rfl
    have balance := continues.balance.frame (held.reduceOption : Multiset α)
    unfold Ledger.Balances Ledger.single at balance ⊢
    rw [balance, hands, ← Multiset.coe_add]
    simp only [Multiset.coe_nil]
    abel

/-! ## The end of a session -/

theorem mem_insertName {name other : String} {names : List String} :
    other ∈ insertName name names ↔ other = name ∨ other ∈ names := by
  induction names with
  | nil => simp [insertName]
  | cons first rest ih =>
    rw [insertName]
    split
    · simp
    · simp only [List.mem_cons, ih]
      tauto

/-- The names of a session are those under which a handle is found. -/
theorem mem_names {s : Session α} {name : String} : name ∈ s.names ↔
    .name name ∈ keysOf s.channels := by
  have sorted (names : List String) : name ∈ names.foldr insertName [] ↔ name ∈ names := by
    induction names with
    | nil => simp
    | cons first rest ih => rw [List.foldr_cons, mem_insertName, List.mem_cons, ih]
  rw [names, sorted]
  simp [keysOf, Channel.keys, handleKeys, ← Handle.name_eq_iff]

/-- When no push is under way, all handles can be dropped, and no ring is left. -/
theorem Sound.close {s : Session α} (sound : s.Sound) (idle : s.pushes = 0) {setup : Setup α}
    (drops : setup.kind.dropFails = none) :
    (s.close setup).session.channels = [] ∧ (s.close setup).result = none ∧
      unreadIn s.channels = Effect.drops (s.close setup).effects ∧
      Effect.clones (s.close setup).effects = [] := by
  have settled := sound.consistent.dropHandles drops s.names
  have gone : keysOf (dropHandles setup.kind s.names s.channels).channels = [] := by
    rw [settled.keys, List.filter_eq_nil_iff]
    intro key member
    cases key with
    | name name => simpa using mem_names.mpr member
    | push number =>
      rw [sound.under_way, idle] at member
      cases member
  have none_left : (dropHandles setup.kind s.names s.channels).channels = [] := by
    refine List.eq_nil_iff_forall_not_mem.mpr fun c member => ?_
    exact (settled.consistent.each c member).reached (List.flatMap_eq_nil_iff.mp gone c member)
  refine ⟨none_left, settled.fault, ?_, settled.clones⟩
  rw [settled.unread, none_left, unreadIn_nil, zero_add]
  rfl

/-! ## Main result -/

/-- Where the values of a session are. -/
structure Conserved (setup : Setup α) (s : Session α) (l : Ledger α) (held : List (Option α)) :
    Prop where
  -- Each value that came in is in one place.
  balance : l.given + l.cloned =
    unreadIn s.channels + (held.reduceOption : Multiset α) + l.handed + l.dropped
  -- All clones go back to values that were given.
  cloned : ∀ b ∈ l.cloned, setup.kind.cloning.Descends l.given b
  -- A ring that is cleared, or that goes, drops its entries in the order in which pops would have
  -- handed them out.
  oldest_first : ∀ c ∈ s.channels, Effect.drops (c.ring.clear setup.kind).effects = c.ring.unread ∧
    Effect.drops (c.ring.release setup.kind).2 = c.ring.unread ∧
    (c.ring.drain none).outcome = .returned c.ring.unread
  -- With the last handle of a ring its unread entries go, and with any other handle nothing.
  released : ∀ key, Effect.drops (dropHandle setup.kind key s.channels).effects = [] ∨
    ∃ c ∈ s.channels, c.without key = [] ∧
      Effect.drops (dropHandle setup.kind key s.channels).effects = c.ring.unread
  -- When all handles are dropped, nothing is left in any ring.
  closed : held = [] → (s.close setup).session.channels = [] ∧ (s.close setup).result = none ∧
    l.given + l.cloned = l.handed + (l.dropped + Effect.drops (s.close setup).effects)

/-- Whatever steps a session has taken, and whatever constructors are running, each value is in one
place. -/
theorem values_conserved {setup : Setup α} (drops : setup.kind.dropFails = none) {s : Session α}
    {l : Ledger α} {held : List (Option α)} (reached : Reached setup s l held) :
    Conserved setup s l held := by
  obtain ⟨sound, pushes, balances, copies⟩ := reached.balances drops
  have balance : l.given + l.cloned =
      unreadIn s.channels + (held.reduceOption : Multiset α) + l.handed + l.dropped := by
    simpa only [Ledger.Balances, zero_add] using balances
  refine ⟨balance, by simpa only [Ledger.Copies, zero_add] using copies, ?_, ?_, ?_⟩
  · intro c member
    obtain ⟨capacity, entries, holds⟩ := (sound.consistent.each c member).rest
    rw [holds.unread]
    exact holds.drops_oldest_first drops
  · intro key
    by_cases reached : key ∈ keysOf s.channels
    · obtain ⟨before, c, after, place⟩ := exists_located sound.consistent.distinct reached
      obtain ⟨capacity, entries, holds⟩ := (sound.consistent.each c place.mem).rest
      rw [place.dropHandle]
      by_cases last : c.without key = []
      · rw [if_pos (by rw [last]; rfl)]
        refine .inr ⟨c, place.mem, last, ?_⟩
        rw [holds.unread]
        exact (holds.drops_oldest_first drops).2.1
      · rw [if_neg (by rwa [List.isEmpty_iff])]
        exact .inl rfl
    · rw [dropHandle_of_not_mem _ reached]
      exact .inl rfl
  · rintro rfl
    obtain ⟨none_left, fault, unread, -⟩ := sound.close pushes drops
    refine ⟨none_left, fault, ?_⟩
    rw [balance, unread]
    change _ + (0 : Multiset α) + l.handed + l.dropped = _
    abel

/-- A queue of one slot: a forced push with a constructor that is still running holds the entry that
made way; after it the entry is the caller's, and the new one is unread. -/
theorem values_conserved_by_forced_emplace :
    let setup : Setup Nat := ⟨.plain, none, .endless⟩
    setup.kind.dropFails = none ∧
      (∃ s l, Reached setup s l [some 1] ∧ l.given = {1} ∧ Conserved setup s l [some 1]) ∧
      ∃ s l, Reached setup s l [] ∧ l.given = {1, 2} ∧ l.handed = {1} ∧ Conserved setup s l [] := by
  intro setup
  have sound : setup.kind.dropFails = none := rfl
  have empty : Reached setup .empty 0 [] := .start
  have created := empty.step (.create "q" (.queue (.ofCapacity 1))) trivial rfl
  have pushed := created.step (.act "q" (.push (.asked .overwrite) 1)) rfl rfl
  have entered := pushed.enter "q" (.asked .overwrite) rfl
  have stored := pushed.step (.emplace "q" (.asked .overwrite) [] (.ok 2)) trivial rfl
  exact ⟨sound, ⟨_, _, entered, rfl, values_conserved sound entered⟩,
    _, _, stored, rfl, rfl, values_conserved sound stored⟩

end RingQueue.Session
