import Mathlib.Tactic.Common
import RingQueue.Proofs.Protocol.Ownership
import RingQueue.Proofs.Protocol.Transit

/-!
One thread hands values over to another one through a ring.

The one pushes, the other pops, and each waits as long as it has to. What the pops return and what
the ring holds in the end does not depend on the interleaving, and the two can always finish unless
there are too few entries to pop or too many to stay.
-/
namespace RingQueue.Protocol

variable {α : Type}

/-- What the threads have done in the end. -/
structure System.HandedOver (r : Ring α) (unread values : List α) (n : Nat) (s : System α) :
    Prop where
  reads : s.responsesOf 1 = ((unread ++ values).take n).map fun a => .popped (some a)
  left : s.ring.unread = (unread ++ values).drop n
  write : s.ring.write = r.write + values.length
  visible : s.ring.visible = r.visible + values.length
  read : s.ring.read = .next (r.freed + n)
  freed : s.ring.freed = r.freed + n
  size : s.ring.size = unread.length + values.length - n

/-! ## The end -/

section Ends

variable {values unread : List α} {n c : Nat} {s : System α}

/-- When both threads are done their pops got the first entries, and the others are left. -/
theorem Reachable.handedOver {r : Ring α} (holds : r.Holds c unread 0)
    (reachable : Reachable (System.beforeHandOver r values n) s) (done : s.isDone = true) :
    s.HandedOver r unread values n := by
  obtain ⟨p, k, h⟩ := reachable.transit
  have sound := reachable.sound holds
  obtain ⟨pDone, kDone⟩ := h.isDone_iff.mp done
  obtain ⟨pIdle, pNone⟩ := Thread.isDone_iff.mp pDone
  obtain ⟨kIdle, kNone⟩ := Thread.isDone_iff.mp kDone
  have all_pushed : (claimsIn s.acts).map Prod.snd = values := by
    obtain ⟨rest, todo, pushes⟩ := h.pushes
    rw [pNone, eq_comm, List.map_eq_nil_iff] at todo
    rw [pIdle, todo] at pushes
    simpa only [Point.unclaimed, List.append_nil] using pushes
  have all_popped : (extractionsIn s.acts).length = n := by
    obtain ⟨m, todo, pops⟩ := h.pops
    have none := congrArg List.length todo
    rw [kNone, List.length_replicate] at none
    rw [kIdle, ← none] at pops
    exact pops
  -- Entries are extracted in the order of their positions, so these are the first `n`.
  have entries : s.entries unread = unread ++ values := by
    rw [System.entries, all_pushed]
  have taken : (emptyingsIn s.acts).map Prod.snd = (unread ++ values).take n := by
    have emptied := h.emptied
    rw [kIdle] at emptied
    simp only [Point.pending, List.append_nil] at emptied
    have inside := sound.extracted_le
    apply List.map_injective_iff.mpr (Option.some_injective α)
    rw [reachable.emptied_values holds, emptied, sound.extractions, map_range'_getElem? _ _ inside,
      all_popped, entries]
  obtain ⟨rest, freed⟩ := sound.rest (h.all_free (by rw [pIdle]; rfl) (by rw [kIdle]; rfl))
  have length := congrArg List.length entries
  have write := rest.write
  have visible := rest.visible
  have size := rest.size
  have before := holds.visible
  have before' := holds.write
  rw [all_popped, entries] at rest
  rw [System.front, all_popped] at freed
  have enough := sound.extracted_le
  rw [all_popped, entries] at enough
  simp only [all_popped, entries, List.length_drop, List.length_append] at visible size enough
  refine ⟨?_, rest.unread, ?_, ?_, ?_, freed, ?_⟩
  · have reads := h.reads
    rw [kIdle, taken] at reads
    simp only [Point.handsOut, List.map_nil, List.append_nil] at reads
    simp only [System.responsesOf, h.threads]
    exact reads
  · omega
  · omega
  · rw [rest.read, freed]
  · omega

end Ends

/-! ## The way there -/

/-- The accesses that a call still needs if nothing holds it up. -/
def Point.work : Point α → Nat
  | undoRaise _ _ => 9
  | raiseSize _ _ => 8
  | construct _ _ => 7
  | claim _ _ => 6
  | awaitSlot _ _ _ => 5
  | fillSlot _ _ _ => 4
  | awaitTurn _ _ _ => 3
  | publish _ _ _ => 2
  | findFront _ => 8
  | checkFront _ _ => 7
  | takeFront _ _ => 6
  | emptySlot _ _ => 5
  | awaitLeave _ _ _ => 4
  | leaveSlot _ _ _ => 3
  | lowerSize _ _ => 2
  | _ => 0

def Thread.work (thread : Thread α) : Nat := thread.point.work + 10 * thread.todo.length

def System.work (s : System α) : Nat := tally Thread.work s.threads

section Ways

variable {values unread : List α} {n c first : Nat} {s : System α} {p k : Thread α}

/-- It is less work after a thread has done some. -/
theorem System.work_lt {i : Nat} {thread thread' : Thread α} {ring : Ring α} {acts : List (Act α)}
    (found : s.threads[i]? = some thread) (less : thread'.work < thread.work) :
    (s.after i ring thread' acts).work < s.work := by
  have moved := tally_set Thread.work found thread'
  simp only [System.work, System.after]
  omega

theorem System.work_lt_of_access {i : Nat} {point : Point α} {todo : List (Request α)}
    {answers : List (Response α)} (found : s.threads[i]? = some ⟨point, todo, answers⟩)
    (less : (advance s.ring point).point.work < point.work) : (s.runThread i).work < s.work := by
  have inside : point ≠ .idle := by
    rintro rfl
    exact Nat.lt_irrefl _ less
  rw [System.runThread_access found inside]
  apply System.work_lt found
  simp only [Thread.work]
  omega

theorem Request.start_work_lt (request : Request α) : request.start.work < 10 := by
  cases request <;> simp only [Request.start, Point.work] <;> decide

theorem System.work_lt_of_call {i : Nat} {request : Request α} {todo : List (Request α)}
    {answers : List (Response α)}
    (found : s.threads[i]? = some ⟨.idle, request :: todo, answers⟩) :
    (s.runThread i).work < s.work := by
  have short := request.start_work_lt
  rw [System.runThread_call found]
  apply System.work_lt found
  change request.start.work + 10 * todo.length < 0 + 10 * (todo.length + 1)
  omega

theorem Point.Pushing.holds_no_front {point : Point α} (h : point.Pushing) :
    point.stage.pins = 0 ∧ ∀ q, point.stage.extracts q = 0 := by
  cases point <;> first | exact ⟨rfl, fun _ => rfl⟩ | exact h.elim

theorem Point.Popping.owns_nothing {r : Ring α} {point : Point α} (h : point.Popping r) (q : Nat) :
    point.stage.owns q = 0 := by
  cases point <;> first | rfl | exact h.elim

/-- The pushing thread can go on unless there is no room. -/
theorem Transit.push_goes_on (h : Transit values n s p k) (sound : s.Sound first c unread)
    (unfinished : p.isDone = false) : (s.runThread 0).work < s.work ∨
      (∃ push kept, p.point = .raiseSize push kept) ∧ s.ring.capacity ≤ s.ring.size := by
  obtain ⟨point, todo, answers⟩ := p
  have found : s.threads[0]? = some ⟨point, todo, answers⟩ := by rw [h.threads]; rfl
  have pushing : point.Pushing := h.pushing
  have member := List.mem_of_getElem? found
  cases point with
  | idle =>
    obtain ⟨rest, same, -⟩ := h.pushes
    cases rest with
    | nil =>
      cases same
      cases unfinished
    | cons a rest =>
      cases same
      exact .inl (System.work_lt_of_call found)
  | raiseSize push kept =>
    -- An attempt without room would only lead back here, so it does not count as going on.
    by_cases room : s.ring.size < s.ring.capacity
    · refine .inl (System.work_lt_of_access found ?_)
      simp only [advance, if_pos room, Point.work]
      decide
    · exact .inr ⟨⟨push, kept, rfl⟩, Nat.le_of_not_lt room⟩
  | undoRaise push kept =>
    refine .inl (System.work_lt_of_access found ?_)
    simp only [advance, afterRefusal, pushing.1, Point.work]
    decide
  | construct push kept =>
    refine .inl (System.work_lt_of_access found ?_)
    simp only [advance, pushing.2, Bool.false_eq_true, if_false, Point.work]
    decide
  | awaitSlot position push kept =>
    -- An admitted push never finds its slot occupied.
    refine .inl (System.work_lt_of_access found ?_)
    have free := sound.slot_free member rfl
    simp only [advance, free, if_true, Point.work]
    decide
  | awaitTurn position push kept =>
    -- There is one owner only, and so it is its turn.
    have claimed := sound.cursors.claimed (List.mem_of_getElem? (s.stages_getElem? found))
    have owner := sound.cursors.owners s.ring.visible
    rw [h.stages, window_inside (Nat.le_refl _) (by omega), tally_cons, tally_cons, tally_nil,
      h.popping.owns_nothing] at owner
    have turn : s.ring.visible = position := by
      by_contra different
      simp only [Point.stage, Stage.owns] at owner
      rw [single_other (Ne.symm different)] at owner
      cases owner
    refine .inl (System.work_lt_of_access found ?_)
    simp only [advance, if_pos turn, Point.work]
    decide
  | claim | fillSlot | publish =>
    refine .inl (System.work_lt_of_access found ?_)
    simp only [advance, Point.work]
    decide
  | _ => exact pushing.elim

/-- The popping thread can go on unless there is nothing to pop. -/
theorem Transit.pop_goes_on (h : Transit values n s p k) (sound : s.Sound first c unread)
    (unfinished : k.isDone = false) : (s.runThread 1).work < s.work ∨
      ∃ position errand, k.point = .checkFront position errand ∧
        s.ring.read = .next position ∧ s.ring.visible ≤ position := by
  obtain ⟨point, todo, answers⟩ := k
  have found : s.threads[1]? = some ⟨point, todo, answers⟩ := by rw [h.threads]; rfl
  have popping : point.Popping s.ring := h.popping
  have member := List.mem_of_getElem? found
  cases point with
  | idle =>
    obtain ⟨m, same, -⟩ := h.pops
    cases m with
    | zero =>
      cases same
      cases unfinished
    | succ m =>
      cases same
      exact .inl (System.work_lt_of_call found)
  | findFront errand =>
    -- Nobody else is there to pin the front.
    have next : s.ring.read = .next (s.front first) := by
      rcases sound.at_front.read with ⟨next, -⟩ | ⟨-, one⟩
      · exact next
      · rw [h.stages, tally_cons, tally_cons, h.pushing.holds_no_front.1] at one
        cases one
    refine .inl (System.work_lt_of_access found ?_)
    simp only [advance, next, Point.work]
    decide
  | checkFront position errand =>
    by_cases nothing : s.ring.visible ≤ position
    · exact .inr ⟨position, errand, rfl, popping.2, nothing⟩
    · refine .inl (System.work_lt_of_access found ?_)
      simp only [advance, if_neg nothing, Point.work]
      decide
  | takeFront position errand =>
    refine .inl (System.work_lt_of_access found ?_)
    simp only [advance, if_pos popping.2, Point.work]
    decide
  | emptySlot position errand =>
    obtain ⟨a, entry⟩ := sound.taken_occupied member rfl
    refine .inl (System.work_lt_of_access found ?_)
    simp only [advance, entry, Point.work]
    decide
  | awaitLeave position a errand =>
    -- There is one extractor only, and so it is its turn.
    have extracting := sound.cursors.extracting (List.mem_of_getElem? (s.stages_getElem? found))
    have extractor := sound.cursors.extractors s.ring.freed
    rw [h.stages, window_inside (Nat.le_refl _) (by omega), tally_cons, tally_cons, tally_nil,
      h.pushing.holds_no_front.2] at extractor
    have turn : s.ring.freed = position := by
      by_contra different
      simp only [Point.stage, Stage.extracts] at extractor
      rw [single_other (Ne.symm different)] at extractor
      cases extractor
    refine .inl (System.work_lt_of_access found ?_)
    simp only [advance, if_pos turn, Point.work]
    decide
  | leaveSlot position a errand =>
    refine .inl (System.work_lt_of_access found ?_)
    simp only [advance, Point.work]
    decide
  | lowerSize a errand =>
    cases popping
    refine .inl (System.work_lt_of_access found ?_)
    simp only [advance, afterExtraction, Point.work]
    decide
  | _ => exact popping.elim

/-- One of the threads can go on until both are done, if there are entries enough for the pops and
room enough for what is left. -/
theorem Transit.goes_on (h : Transit values n s p k) (sound : s.Sound first c unread)
    (positive : 0 < c) (enough : n ≤ unread.length + values.length)
    (room : unread.length + values.length - n ≤ c) (unfinished : s.isDone = false) :
    ∃ i, i < s.threads.length ∧ (s.runThread i).work < s.work := by
  have threads : s.threads.length = 2 := by rw [h.threads]; rfl
  -- Were both stuck, each would hold nothing, and their counts would have to fit the ring's.
  by_contra stuck
  have pushStuck : p.isDone = true ∨
      (∃ push kept, p.point = .raiseSize push kept) ∧ s.ring.capacity ≤ s.ring.size := by
    cases done : p.isDone with
    | true => exact .inl rfl
    | false =>
      rcases h.push_goes_on sound done with goes | waits
      · exact absurd ⟨0, by omega, goes⟩ stuck
      · exact .inr waits
  have popStuck : k.isDone = true ∨ ∃ position errand, k.point = .checkFront position errand ∧
      s.ring.read = .next position ∧ s.ring.visible ≤ position := by
    cases done : k.isDone with
    | true => exact .inl rfl
    | false =>
      rcases h.pop_goes_on sound done with goes | waits
      · exact absurd ⟨1, by omega, goes⟩ stuck
      · exact .inr waits
  have pFree : p.point.stage = .free := by
    rcases pushStuck with done | ⟨⟨push, kept, point⟩, -⟩
    · rw [(Thread.isDone_iff.mp done).1]
      rfl
    · rw [point]
      rfl
  have kFree : k.point.stage = .free := by
    rcases popStuck with done | ⟨position, errand, point, -⟩
    · rw [(Thread.isDone_iff.mp done).1]
      rfl
    · rw [point]
      rfl
  obtain ⟨pushed, popped, pushes, pops, within, size, visible, capacity, -, read⟩ :=
    h.counts sound pFree kFree
  rcases pushStuck with pDone | ⟨⟨push, kept, pPoint⟩, full⟩ <;>
    rcases popStuck with kDone | ⟨position, errand, kPoint, next, nothing⟩
  · -- Both are done.
    rw [h.isDone_iff.mpr ⟨pDone, kDone⟩] at unfinished
    cases unfinished
  · -- All is pushed and popped, but fewer than `n`.
    obtain ⟨pIdle, pNone⟩ := Thread.isDone_iff.mp pDone
    rw [read] at next
    injection next with next
    rw [pIdle, pNone] at pushes
    rw [kPoint] at pops
    simp only [Point.unclaimed, Point.wanting, List.length_nil] at pushes pops
    omega
  · -- All pops are done, and there are more than `c` entries for the others.
    obtain ⟨kIdle, kNone⟩ := Thread.isDone_iff.mp kDone
    rw [pPoint] at pushes
    rw [kIdle, kNone] at pops
    simp only [Point.unclaimed, Point.wanting, List.length_nil, List.length_singleton]
      at pushes pops
    omega
  · -- The ring cannot be full and empty.
    rw [read] at next
    injection next with next
    omega

end Ways

/-! ## The result -/

theorem Reachable.trans {s t u : System α} (first : Reachable s t) (second : Reachable t u) :
    Reachable s u := by
  induction second with
  | start => exact first
  | next _ step ih => exact ih.next step

theorem Reachable.finishes {r : Ring α} {c : Nat} {unread values : List α} {n : Nat}
    (holds : r.Holds c unread 0) (positive : 0 < c) (enough : n ≤ unread.length + values.length)
    (room : unread.length + values.length - n ≤ c) {s : System α}
    (reachable : Reachable (System.beforeHandOver r values n) s) :
    ∃ t, Reachable s t ∧ t.isDone = true := by
  -- Induction on the work left, whichever of the two threads does some.
  generalize less : s.work = work
  induction work using Nat.strongRecOn generalizing s with
  | ind work ih =>
    cases done : s.isDone with
    | true => exact ⟨s, .start, done⟩
    | false =>
      obtain ⟨p, k, h⟩ := reachable.transit
      obtain ⟨i, inside, lighter⟩ := h.goes_on (reachable.sound holds) positive enough room done
      have step := Step.run s i inside
      obtain ⟨t, further, finished⟩ := ih _ (less ▸ lighter) (reachable.next step) rfl
      exact ⟨t, (Reachable.next .start step).trans further, finished⟩

/-- A hand-over is determined by what it starts from. If the entries are enough for the pops and
those left have room, the threads can finish from wherever they are; if they finish, the pops got
the first entries and the others are left. Otherwise they never finish. -/
theorem hand_over_determined {r : Ring α} {c : Nat} {unread : List α} (holds : r.Holds c unread 0)
    (positive : 0 < c) (values : List α) (n : Nat) {s : System α}
    (reachable : Reachable (System.beforeHandOver r values n) s) :
    (n ≤ unread.length + values.length ∧ unread.length + values.length - n ≤ c →
      ∃ t, Reachable s t ∧ t.isDone = true) ∧
    (s.isDone = true → s.HandedOver r unread values n) ∧
    (¬ (n ≤ unread.length + values.length ∧ unread.length + values.length - n ≤ c) →
      s.isDone = false) := by
  refine ⟨?_, reachable.handedOver holds, ?_⟩
  · rintro ⟨enough, room⟩
    exact reachable.finishes holds positive enough room
  · -- A state with both threads done has popped `n` entries and holds the rest.
    intro outside
    by_contra done
    rw [Bool.not_eq_false] at done
    obtain ⟨p, k, h⟩ := reachable.transit
    obtain ⟨pDone, kDone⟩ := h.isDone_iff.mp done
    obtain ⟨pIdle, pNone⟩ := Thread.isDone_iff.mp pDone
    obtain ⟨kIdle, kNone⟩ := Thread.isDone_iff.mp kDone
    obtain ⟨pushed, popped, pushes, pops, within, size, -, -, fits, -⟩ :=
      h.counts (reachable.sound holds) (by rw [pIdle]; rfl) (by rw [kIdle]; rfl)
    rw [pIdle, pNone] at pushes
    rw [kIdle, kNone] at pops
    simp only [Point.unclaimed, Point.wanting, List.length_nil] at pushes pops
    apply outside
    omega

/-- Two values pass through a ring of one slot. -/
theorem hand_over_through_one_slot :
    (Ring.empty 1 : Ring Nat).Holds 1 [] 0 ∧ 0 < 1 ∧
    ∃ s, Reachable (System.beforeHandOver (Ring.empty 1) [7, 8] 2) s ∧ s.isDone = true ∧
      s.HandedOver (Ring.empty 1) [] [7, 8] 2 :=
  have reached := reachable_run .start
    (List.replicate 9 0 ++ List.replicate 12 1 ++ List.replicate 8 0 ++ List.replicate 12 1)
  ⟨Ring.holds_empty 1, by decide, _, reached, by decide +kernel,
    (hand_over_determined (Ring.holds_empty 1) (by decide) [7, 8] 2 reached).2.1
      (by decide +kernel)⟩

/-! ## The schedule that is run -/

section Schedules

variable {first s : System α}

theorem reachable_stepUntilPause (reachable : Reachable first s) (i steps : Nat) :
    Reachable first (System.stepUntilPause i steps s) := by
  induction steps generalizing s with
  | zero => exact reachable
  | succ steps ih =>
    have stepped := reachable_run reachable [i]
    simp only [System.stepUntilPause]
    split
    · exact stepped
    · exact ih stepped

theorem reachable_round (reachable : Reachable first s) : Reachable first s.round := by
  -- Whatever the order of the turns.
  have turns : ∀ (order : List Nat) (t : System α), Reachable first t →
      Reachable first (order.foldl System.turn t) := by
    intro order
    induction order with
    | nil => exact fun _ reached => reached
    | cons i rest ih =>
      exact fun t reached => ih _ (reachable_stepUntilPause reached i t.turnLength)
  exact turns _ s reachable

theorem reachable_rounds (reachable : Reachable first s) (n : Nat) :
    Reachable first (System.rounds n s) := by
  induction n generalizing s with
  | zero => exact reachable
  | succ n ih =>
    simp only [System.rounds]
    split
    · exact reachable
    · exact ih (reachable_round reachable)

theorem reachable_finish (reachable : Reachable first s) : Reachable first s.finish :=
  reachable_rounds reachable _

end Schedules

/-- What the hand-over returns, if it does, is what any other schedule would have led to. -/
theorem handOver_eq {r : Ring α} {c : Nat} {unread : List α} (holds : r.Holds c unread 0)
    {values : List α} {n : Nat} {entries : List α} {last : Ring α}
    (finished : handOver r values n = some (entries, last)) :
    entries = (unread ++ values).take n ∧ last.unread = (unread ++ values).drop n := by
  simp only [handOver] at finished
  split at finished
  · cases finished
    have reached : Reachable (System.beforeHandOver r values n)
        (System.beforeHandOver r values n).finish := reachable_finish .start
    have handed := reached.handedOver holds ‹_›
    constructor
    · have reads := congrArg (List.filterMap Response.poppedEntry?) handed.reads
      rw [List.filterMap_map] at reads
      exact reads.trans List.filterMap_some
    · exact handed.left
  · cases finished

end RingQueue.Protocol
