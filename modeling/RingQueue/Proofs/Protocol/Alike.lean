import RingQueue.Proofs.Ring.Alike
import RingQueue.Protocol.Scenario

/-!
Threads cannot tell alike rings apart.

The next access of a thread leads to the same point with the same acts (`Ring.Alike.advance`). So
whatever the schedule, the threads make the same calls and get the same answers, and a hand-over
goes the same way.
-/
namespace RingQueue

open Protocol

variable {α : Type}

/-- Accesses that lead to the same point, with the same acts. -/
structure Protocol.Move.Alike (m m' : Move α) : Prop where
  ring : m.ring.Alike m'.ring
  point : m'.point = m.point
  acts : m'.acts = m.acts

namespace Ring.Alike

variable {r r' : Ring α}

theorem raised (h : r.Alike r') :
    Alike { r with size := r.size + 1 } { r' with size := r'.size + 1 } :=
  { h with size := congrArg (· + 1) h.size, entry := h.entry }

theorem afterRefusal (h : r.Alike r') (p : Push α) (kept : Option α) :
    (Protocol.afterRefusal r p kept).Alike (Protocol.afterRefusal r' p kept) := by
  unfold Protocol.afterRefusal
  split
  · exact ⟨h, rfl, rfl⟩
  · exact ⟨h, rfl, rfl⟩
  · split <;> exact ⟨h, rfl, rfl⟩

theorem afterNothing (h : r.Alike r') (errand : Errand α) :
    (Protocol.afterNothing r errand).Alike (Protocol.afterNothing r' errand) := by
  cases errand <;> exact ⟨h, rfl, rfl⟩

theorem afterExtraction (h : r.Alike r') (a : α) (errand : Errand α) :
    (Protocol.afterExtraction r a errand).Alike (Protocol.afterExtraction r' a errand) := by
  cases errand with
  | pop | popWaiting => exact ⟨h, rfl, rfl⟩
  | evict p kept => cases kept <;> exact ⟨h, rfl, rfl⟩

/-- Any access of a thread. -/
theorem advance (h : r.Alike r') (point : Point α) :
    (Protocol.advance r point).Alike (Protocol.advance r' point) := by
  cases point with
  | idle => exact ⟨h, rfl, rfl⟩
  | raiseSize p kept =>
    simp only [Protocol.advance]
    by_cases room : r.size < r.capacity
    · have room' : r'.size < r'.capacity := by rwa [h.size, h.capacity]
      rw [if_pos room, if_pos room']
      exact ⟨h.raised, rfl, rfl⟩
    · have full : ¬ r'.size < r'.capacity := by rwa [h.size, h.capacity]
      rw [if_neg room, if_neg full]
      exact ⟨h.raised, rfl, rfl⟩
  | undoRaise p kept => exact h.returnAdmission.afterRefusal p kept
  | construct p kept => exact ⟨h, rfl, rfl⟩
  | returnRoom p kept => exact ⟨h.returnAdmission, rfl, rfl⟩
  | claim p kept =>
    have write := h.write
    refine ⟨{ h with write := congrArg (· + 1) write, entry := h.entry }, ?_, ?_⟩
    · simp only [Protocol.advance, write]
    · simp only [Protocol.advance, write]
  | awaitSlot position p kept =>
    refine ⟨h, ?_, rfl⟩
    simp only [Protocol.advance, h.slotIsFree]
  | fillSlot position p kept =>
    exact ⟨{ h with entry := fun other => h.entry_setSlot position other (some p.value) }, rfl, rfl⟩
  | awaitTurn position p kept =>
    refine ⟨h, ?_, rfl⟩
    simp only [Protocol.advance, h.visible]
  | publish position p kept => exact ⟨{ h with visible := rfl, entry := h.entry }, rfl, rfl⟩
  | findFront errand =>
    simp only [Protocol.advance]
    rw [h.read]
    cases r.read <;> exact ⟨h, rfl, rfl⟩
  | checkFront position errand =>
    simp only [Protocol.advance]
    rw [h.visible]
    split
    · exact h.afterNothing errand
    · exact ⟨h, rfl, rfl⟩
  | takeFront position errand =>
    simp only [Protocol.advance]
    by_cases here : r.read = .next position
    · rw [if_pos here, if_pos (h.read.trans here)]
      exact ⟨{ h with read := rfl, entry := h.entry }, rfl, rfl⟩
    · rw [if_neg here, if_neg (by rwa [h.read])]
      exact ⟨h, rfl, rfl⟩
  | emptySlot position errand =>
    simp only [Protocol.advance]
    rw [h.entry]
    cases r.entry position with
    | none => exact ⟨h, rfl, rfl⟩
    | some a => exact ⟨{ h with entry := fun other => h.entry_setSlot position other none },
        rfl, rfl⟩
  | awaitLeave position a errand =>
    refine ⟨h, ?_, rfl⟩
    simp only [Protocol.advance, h.freed]
  | leaveSlot position a errand => exact ⟨{ h with freed := rfl, entry := h.entry }, rfl, rfl⟩
  | lowerSize a errand => exact h.returnAdmission.afterExtraction a errand
  | findPin visit =>
    simp only [Protocol.advance]
    rw [h.read]
    cases r.read <;> exact ⟨h, rfl, rfl⟩
  | setPin position visit =>
    simp only [Protocol.advance]
    by_cases here : r.read = .next position
    · rw [if_pos here, if_pos (h.read.trans here)]
      exact ⟨{ h with read := rfl, entry := h.entry }, rfl, rfl⟩
    · rw [if_neg here, if_neg (by rwa [h.read])]
      exact ⟨h, rfl, rfl⟩
  | checkPinned position visit =>
    refine ⟨h, ?_, rfl⟩
    simp only [Protocol.advance, h.visible]
  | cloneSlot position next stop clones visit =>
    simp only [Protocol.advance]
    rw [h.entry]
    split
    · exact ⟨h, rfl, rfl⟩
    · split <;> exact ⟨h, rfl, rfl⟩
  | clearPin position clones visit => exact ⟨{ h with read := rfl, entry := h.entry }, rfl, rfl⟩
  | readSize =>
    refine ⟨h, rfl, ?_⟩
    simp only [Protocol.advance, h.len]

end Ring.Alike

namespace Protocol

/-- The same threads with the same history, on alike rings. -/
structure System.Alike (s s' : System α) : Prop where
  ring : s.ring.Alike s'.ring
  threads : s'.threads = s.threads
  history : s'.history = s.history

namespace System.Alike

variable {s s' : System α}

theorem runThread (h : s.Alike s') (i : Nat) : (s.runThread i).Alike (s'.runThread i) := by
  obtain ⟨ring, _, _⟩ := s
  obtain ⟨ring', threads, history⟩ := s'
  obtain ⟨rings, rfl, rfl⟩ := h
  unfold System.runThread
  dsimp only
  cases threads[i]? with
  | none => exact ⟨rings, rfl, rfl⟩
  | some t =>
    obtain ⟨point, todo, answers⟩ := t
    have moves := rings.advance point
    cases point with
    | idle => cases todo <;> exact ⟨rings, rfl, rfl⟩
    | _ =>
      refine ⟨moves.ring, ?_, ?_⟩
      · simp only [moves.point, moves.acts]
      · simp only [moves.acts]

theorem mayPause (h : s.Alike s') (i : Nat) : s'.mayPause i = s.mayPause i := by
  simp only [System.mayPause, System.threadIs, h.threads]

theorem isDone (h : s.Alike s') : s'.isDone = s.isDone := by
  simp only [System.isDone, h.threads]

theorem stepUntilPause (h : s.Alike s') (i steps : Nat) :
    (System.stepUntilPause i steps s).Alike (System.stepUntilPause i steps s') := by
  induction steps generalizing s s' with
  | zero => exact h
  | succ steps ih =>
    have ran := h.runThread i
    simp only [System.stepUntilPause, ran.mayPause i]
    split
    · exact ran
    · exact ih ran

theorem turn (h : s.Alike s') (i : Nat) : (s.turn i).Alike (s'.turn i) := by
  simp only [System.turn, System.turnLength, h.ring.len]
  exact h.stepUntilPause i _

theorem turns (h : s.Alike s') (order : List Nat) :
    (order.foldl System.turn s).Alike (order.foldl System.turn s') := by
  induction order generalizing s s' with
  | nil => exact h
  | cons i rest ih => exact ih (h.turn i)

theorem rounds (h : s.Alike s') (n : Nat) : (System.rounds n s).Alike (System.rounds n s') := by
  induction n generalizing s s' with
  | zero => exact h
  | succ n ih =>
    simp only [System.rounds, h.isDone]
    split
    · exact h
    · refine ih ?_
      simp only [System.round, h.threads]
      exact h.turns _

theorem finish (h : s.Alike s') : s.finish.Alike s'.finish := by
  simp only [System.finish, System.callsLeft, h.threads]
  exact h.rounds _

end System.Alike

/-- A hand-over pops the same entries, and leaves alike rings. -/
theorem handOver_alike {r r' : Ring α} (h : r.Alike r') (values : List α) (pops : Nat) :
    (handOver r values pops = none ∧ handOver r' values pops = none) ∨
      ∃ popped s s', handOver r values pops = some (popped, s) ∧
        handOver r' values pops = some (popped, s') ∧
        s.Alike s' := by
  have start : (System.start r [values.map Request.pushWaiting, List.replicate pops
    Request.popWaiting]).Alike
      (System.start r' [values.map Request.pushWaiting, List.replicate pops Request.popWaiting]) :=
    ⟨h, rfl, rfl⟩
  have last := start.finish
  simp only [handOver, last.isDone, System.responsesOf, last.threads]
  split
  · exact .inr ⟨_, _, _, rfl, rfl, last.ring⟩
  · exact .inl ⟨rfl, rfl⟩

end Protocol

end RingQueue
