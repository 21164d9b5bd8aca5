import RingQueue.Proofs.Ring.Constructors
import RingQueue.Ring.Timed

/-!
Waiting with a deadline.

Between its attempts a call lets other handles do what they like with the ring. Nothing of that, and
no number of attempts, makes it lose or repeat its entry: what a call leaves is the ring that its
last attempt met, or that ring with one entry pushed or popped (`Ring.pushBackUntil_ends`,
`Ring.popFrontUntil_ends`).
-/
namespace RingQueue

variable {α : Type}

namespace Ring

/-! ## Attempts -/

/-- The ring that attempt number `n` meets, counted from zero, when the attempts before it changed
nothing. -/
def meets (interludes : List (Interlude α)) (r : Ring α) (n : Nat) : Ring α :=
  (interludes.take n).foldl (fun r now => now.change r) r

/-- A call comes to attempt number `n`: all attempts before it failed, and no look at the clock was
too late. -/
structure ComesTo (fails : Ring α → Prop) (deadline : Deadline) (interludes : List (Interlude α))
    (r : Ring α) (n : Nat) : Prop where
  count : n ≤ interludes.length
  failed : ∀ m < n, fails (r.meets interludes m)
  in_time : ∀ now ∈ interludes.take n, deadline.isPast now.clock = false

namespace ComesTo

variable {fails : Ring α → Prop} {deadline : Deadline} {interludes rest : List (Interlude α)}
  {r : Ring α} {now : Interlude α} {n : Nat}

/-- The first attempt is always made. -/
theorem zero : ComesTo fails deadline interludes r 0 where
  count := Nat.zero_le _
  failed := by
    intro m below
    cases below
  in_time := by
    intro now member
    cases member

theorem succ (failed : fails r) (in_time : deadline.isPast now.clock = false)
    (comes : ComesTo fails deadline rest (now.change r) n) : ComesTo fails deadline (now :: rest)
    r (n + 1) where
  count := Nat.succ_le_succ comes.count
  failed := by
    intro m below
    cases m with
    | zero => exact failed
    | succ m => exact comes.failed m (Nat.lt_of_succ_lt_succ below)
  in_time := by
    intro other member
    rcases List.mem_cons.mp member with rfl | further
    · exact in_time
    · exact comes.in_time other further

end ComesTo

/-! ## Pushes -/

theorem tryAdmission_eq_none_iff (r : Ring α) : r.tryAdmission = none ↔ r.isFull = true := by
  unfold tryAdmission isFull len
  split <;> simp <;> omega

section Pushes

variable {a : α} {deadline : Deadline} {interludes rest : List (Interlude α)} {r r' : Ring α}
  {now : Interlude α} {call : Call α (Except α Unit)}

/-- The ring got one entry: it stands at the next position, and nothing before it has changed. -/
structure GotOne (r left : Ring α) (a : α) : Prop where
  published : r.visible = r.write
  write : left.write = r.write + 1
  visible : left.visible = r.visible + 1
  size : left.size = r.size + 1
  read : left.read = r.read
  freed : left.freed = r.freed
  last : left.entry r.write = some a
  others : ∀ position, r.freed ≤ position → position < r.write →
    left.entry position = r.entry position

/-- The ways in which a push with a deadline can end, or not end. -/
inductive PushEnds (deadline : Deadline) (a : α) (interludes : List (Interlude α)) (r : Ring α) :
    Call α (Except α Unit) → Prop where
  -- The last attempt finds room, and pushes the entry behind all others.
  | stored {n : Nat} {admitted left : Ring α}
      (comes : ComesTo (·.isFull = true) deadline interludes r n)
      (room : (r.meets interludes n).tryAdmission = some admitted)
      (published : admitted.publish a = some left) (once : (r.meets interludes n).GotOne left a)
      (appended : ∀ entries, (r.meets interludes n).Serves entries → left.Serves (entries ++ [a])) :
      PushEnds deadline a interludes r (.returned (.ok ()) left [])
  -- The last attempt finds the ring full, and after it the clock is past the deadline.
  | timedOut {n : Nat} {now : Interlude α}
      (comes : ComesTo (·.isFull = true) deadline interludes r n)
      (full : (r.meets interludes n).isFull = true) (next : interludes[n]? = some now)
      (late : deadline.isPast now.clock = true) :
      PushEnds deadline a interludes r
        (.returned (.error a) (r.meets interludes n)
          [.reported (.pushTimedOut (r.meets interludes n).capacity)])
  -- All attempts for which there is time find the ring full.
  | starved (comes : ComesTo (·.isFull = true) deadline interludes r interludes.length)
      (full : (r.meets interludes interludes.length).isFull = true) :
      PushEnds deadline a interludes r (.waiting (r.meets interludes interludes.length))
  -- There is room, and the push waits for others that are under way.
  | behind {n : Nat} {admitted : Ring α} (comes : ComesTo (·.isFull = true) deadline interludes r n)
      (room : (r.meets interludes n).tryAdmission = some admitted)
      (blocked : admitted.publish a = none)
      (busy : ∀ c entries reserved, ¬ (r.meets interludes n).Holds c entries reserved) :
      PushEnds deadline a interludes r (.waiting admitted)

/-- An attempt that failed in time does not count for how a push ends. -/
theorem PushEnds.later (full : r.isFull = true) (in_time : deadline.isPast now.clock = false)
    (ends : PushEnds deadline a rest (now.change r) call) :
    PushEnds deadline a (now :: rest) r call := by
  cases ends with
  | stored comes room published once appended =>
    exact .stored (comes.succ full in_time) room published once appended
  | timedOut comes still next late => exact .timedOut (comes.succ full in_time) still next late
  | starved comes still => exact .starved (comes.succ full in_time) still
  | behind comes room blocked busy => exact .behind (comes.succ full in_time) room blocked busy

/-- An admission changes nothing but the count. -/
theorem Serves.admitted {entries : List α} (h : r.Serves entries)
    (room : r.tryAdmission = some r') :
    r'.Serves entries := by
  unfold tryAdmission at room
  split at room
  · cases room
    exact ⟨h.read, h.visible, h.fits, h.slots⟩
  · cases room

/-- An entry that is admitted and published is one more, whoever else is at work. -/
theorem gotOne {left : Ring α} (room : r.tryAdmission = some r')
    (published : r'.publish a = some left) :
    r.GotOne left a := by
  unfold tryAdmission at room
  split at room
  · cases room
    unfold Ring.publish at published
    split at published
    · rename_i turn
      cases published
      simp only [slotIsFree, Bool.and_eq_true, Bool.or_eq_true, decide_eq_true_eq] at turn
      obtain ⟨free, next⟩ := turn
      refine ⟨next, rfl, by dsimp only; omega, rfl, rfl, rfl, ?_, ?_⟩
      · change Ring.entry { r with slots := r.setSlot r.write (some a) } r.write = _
        rw [entry_setSlot, if_pos rfl]
      · -- The slot was left one round before, so no position in use has the same one.
        intro position above below
        change Ring.entry { r with slots := r.setSlot r.write (some a) } position = _
        rw [entry_setSlot_window r.freed above (by omega) (by omega) (by omega),
          if_neg (Nat.ne_of_lt below)]
    · cases published
  · cases room

theorem Holds.publishes {c reserved : Nat} {entries : List α} (h : r.Holds c entries reserved)
    (room : r.tryAdmission = some r') (a : α) :
    ∃ left, r'.publish a = some left ∧ left.Holds c (entries ++ [a]) reserved := by
  rcases Nat.lt_or_ge (entries.length + reserved) c with below | full
  · obtain ⟨other, granted, holds⟩ := h.tryAdmission_room below
    rw [room] at granted
    cases granted
    exact holds.publish a
  · rw [h.tryAdmission_full (Nat.le_antisymm h.fits full)] at room
    cases room

/-- An attempt that finds room is the last one, whatever the clock shows. -/
theorem pushBackUntil_ends_at_once (deadline : Deadline) (a : α) (interludes : List (Interlude α))
    (room : r.tryAdmission = some r') :
    PushEnds deadline a interludes r (pushBackUntil deadline a interludes r) := by
  rw [pushBackUntil.eq_def]
  simp only [room]
  cases published : r'.publish a with
  | some left =>
    refine .stored .zero room published (gotOne room published) fun entries serves => ?_
    exact (Serves.admitted serves room).publish published
  | none =>
    refine .behind .zero room published fun c entries reserved holds => ?_
    obtain ⟨left, publishes, -⟩ := Holds.publishes holds room a
    rw [published] at publishes
    cases publishes

theorem pushBackUntil_ends (deadline : Deadline) (a : α) (interludes : List (Interlude α))
    (r : Ring α) :
    PushEnds deadline a interludes r (pushBackUntil deadline a interludes r) := by
  induction interludes generalizing r with
  | nil =>
    cases attempt : r.tryAdmission with
    | some r' => exact pushBackUntil_ends_at_once deadline a [] attempt
    | none =>
      rw [pushBackUntil, attempt]
      exact .starved .zero (r.tryAdmission_eq_none_iff.mp attempt)
  | cons now rest ih =>
    cases attempt : r.tryAdmission with
    | some r' => exact pushBackUntil_ends_at_once deadline a (now :: rest) attempt
    | none =>
      have full := r.tryAdmission_eq_none_iff.mp attempt
      rw [pushBackUntil, attempt]
      dsimp only
      by_cases late : deadline.isPast now.clock = true
      · rw [if_pos late]
        exact .timedOut .zero full rfl late
      · rw [if_neg late]
        exact (ih (now.change r)).later full (Bool.eq_false_of_not_eq_true late)

end Pushes

/-! ## Pops -/

/-- The unread entries stand in their slots, less than one round from each other. -/
structure HasUnread (r : Ring α) : Prop where
  freed_le : r.freed ≤ r.front
  fits : r.visible ≤ r.freed + r.capacity
  occupied : ∀ position, r.front ≤ position → position < r.visible → ∃ a, r.entry position = some a

/-- An extraction finds no entry that is published, and changes nothing. -/
def FindsNothing (r : Ring α) : Prop := r.takeFront = some (none, r)

section Pops

variable {a : α} {deadline : Deadline} {interludes rest : List (Interlude α)} {r left : Ring α}
  {now : Interlude α} {call : Call α (Option α)}

theorem Serves.hasUnread {entries : List α} (h : r.Serves entries) : r.HasUnread where
  freed_le := by rw [h.front]
  fits := by
    have visible := h.visible
    have fits := h.fits
    omega
  occupied := by
    intro position above below
    rw [h.front] at above
    have visible := h.visible
    have inside : position - r.freed < entries.length := by omega
    have slot := h.slots (position - r.freed) inside
    rw [Nat.add_sub_cancel' above, List.getElem?_eq_getElem inside] at slot
    exact ⟨_, slot⟩

/-- The three ways in which an extraction goes: it has to wait for others, there is nothing, or it
takes the oldest unread entry and leaves all the others. -/
theorem HasUnread.takes (has : r.HasUnread) :
    (r.takeFront = none ∧ r.read ≠ .next r.freed) ∨ (r.FindsNothing ∧ r.unread = []) ∨
      ∃ a left, r.takeFront = some (some a, left) ∧ r.unread = a :: left.unread := by
  obtain ⟨freed_le, fits, occupied⟩ := has
  cases read : r.read with
  | pinned => exact .inl ⟨by simp only [takeFront, read], by rintro ⟨⟩⟩
  | next position =>
    have front : r.front = position := by simp only [Ring.front, read]
    rw [front] at freed_le occupied
    by_cases published : position < r.visible
    · by_cases here : r.freed = position
      · subst here
        have serves := serves_unread read (Nat.le_of_lt published) fits occupied
        cases unread : r.unread with
        | nil =>
          have visible := serves.visible
          rw [unread, List.length_nil] at visible
          omega
        | cons a entries =>
          rw [unread] at serves
          obtain ⟨left, taken, after⟩ := serves.takeFront_cons
          exact .inr (.inr ⟨a, left, taken, by rw [after.unread]⟩)
      · refine .inl ⟨?_, ?_⟩
        · simp only [takeFront, read, if_neg (Nat.not_le_of_lt published), if_neg here]
        · rintro ⟨⟩
          exact here rfl
    · refine .inr (.inl ⟨?_, ?_⟩)
      · simp only [FindsNothing, takeFront, read, if_pos (Nat.le_of_not_lt published)]
      · have count : r.unreadCount = 0 := by
          rw [Ring.unreadCount, front]
          omega
        simp [Ring.unread, unreadBatch, Batch.toList, count]

theorem HasUnread.unread_eq_nil (has : r.HasUnread) (nothing : r.FindsNothing) : r.unread = [] := by
  rcases has.takes with ⟨kept, -⟩ | ⟨-, none_unread⟩ | ⟨a, left, taken, -⟩
  · rw [nothing] at kept
    cases kept
  · exact none_unread
  · rw [nothing] at taken
    cases taken

/-- The ways in which a pop with a deadline can end, or not end. -/
inductive PopEnds (deadline : Deadline) (interludes : List (Interlude α)) (r : Ring α) :
    Call α (Option α) → Prop where
  -- The last attempt takes the oldest entry, and no other.
  | popped {n : Nat} {a : α} {left : Ring α} (comes : ComesTo FindsNothing deadline interludes r n)
      (taken : (r.meets interludes n).takeFront = some (some a, left))
      (removed : (r.meets interludes n).unread = a :: left.unread) :
      PopEnds deadline interludes r (.returned (some a) left [])
  -- The last attempt finds nothing, and after it the clock is past the deadline.
  | timedOut {n : Nat} {now : Interlude α} (comes : ComesTo FindsNothing deadline interludes r n)
      (nothing : (r.meets interludes n).FindsNothing)
      (none_unread : (r.meets interludes n).unread = []) (next : interludes[n]? = some now)
      (late : deadline.isPast now.clock = true) :
      PopEnds deadline interludes r
        (.returned none (r.meets interludes n)
          [.reported (.popTimedOut (r.meets interludes n).capacity)])
  -- All attempts for which there is time find nothing.
  | starved (comes : ComesTo FindsNothing deadline interludes r interludes.length)
      (nothing : (r.meets interludes interludes.length).FindsNothing) :
      PopEnds deadline interludes r (.waiting (r.meets interludes interludes.length))
  -- The front is pinned, or an extraction before it is under way.
  | held {n : Nat} (comes : ComesTo FindsNothing deadline interludes r n)
      (kept : (r.meets interludes n).takeFront = none)
      (busy : (r.meets interludes n).read ≠ .next (r.meets interludes n).freed) :
      PopEnds deadline interludes r (.waiting (r.meets interludes n))

/-- An attempt that found nothing in time does not count for how a pop ends. -/
theorem PopEnds.later (nothing : r.FindsNothing) (in_time : deadline.isPast now.clock = false)
    (ends : PopEnds deadline rest (now.change r) call) : PopEnds deadline (now :: rest) r call := by
  cases ends with
  | popped comes taken removed => exact .popped (comes.succ nothing in_time) taken removed
  | timedOut comes still none_unread next late =>
    exact .timedOut (comes.succ nothing in_time) still none_unread next late
  | starved comes still => exact .starved (comes.succ nothing in_time) still
  | held comes kept busy => exact .held (comes.succ nothing in_time) kept busy

/-- An attempt that does not find nothing is the last one, whatever the clock shows. -/
theorem popFrontUntil_ends_at_once (deadline : Deadline) (interludes : List (Interlude α))
    (has : r.HasUnread) (something : ¬ r.FindsNothing) : PopEnds deadline interludes r
    (popFrontUntil deadline interludes r) := by
  rw [popFrontUntil.eq_def]
  rcases has.takes with ⟨kept, busy⟩ | ⟨nothing, -⟩ | ⟨a, left, taken, removed⟩
  · simp only [kept]
    exact .held .zero kept busy
  · exact absurd nothing something
  · simp only [taken]
    exact .popped .zero taken removed

theorem popFrontUntil_ends (deadline : Deadline) (interludes : List (Interlude α)) (r : Ring α)
    (has : ∀ n ≤ interludes.length, (r.meets interludes n).HasUnread) :
    PopEnds deadline interludes r (popFrontUntil deadline interludes r) := by
  have first : r.HasUnread := has 0 (Nat.zero_le _)
  induction interludes generalizing r with
  | nil =>
    by_cases nothing : r.FindsNothing
    · rw [popFrontUntil, nothing]
      exact .starved .zero nothing
    · exact popFrontUntil_ends_at_once deadline [] first nothing
  | cons now rest ih =>
    by_cases nothing : r.FindsNothing
    · have further := ih (now.change r) (fun n below => has (n + 1) (Nat.succ_le_succ below))
        (has 1 (Nat.succ_le_succ (Nat.zero_le _)))
      rw [popFrontUntil, nothing]
      dsimp only
      by_cases late : deadline.isPast now.clock = true
      · rw [if_pos late]
        exact .timedOut .zero nothing (first.unread_eq_nil nothing) rfl late
      · rw [if_neg late]
        exact further.later nothing (Bool.eq_false_of_not_eq_true late)
    · exact popFrontUntil_ends_at_once deadline (now :: rest) first nothing

end Pops

end Ring

end RingQueue
