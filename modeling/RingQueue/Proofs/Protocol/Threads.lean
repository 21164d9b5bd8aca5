import Mathlib.Tactic.Common
import RingQueue.Proofs.Protocol.History

/-!
What one thread does by itself, whatever the ring and the other threads do.

What every turn of a thread keeps holds of its acts in every run (`Reachable.thread`), and every act
that a run made leads back to the turn in which it was made (`Reachable.moment`).
-/
namespace RingQueue.Protocol

variable {α : Type}

/-- A turn takes up a call or leads on inside one. -/
theorem Turn.leads {r ring : Ring α} {thread thread' : Thread α} {acts : List (Act α)}
    (turn : Turn r thread ring thread' acts) :
    (∃ request, thread.point = .idle ∧ thread.todo = request :: thread'.todo ∧
      thread'.point = request.start ∧ thread'.answers = thread.answers ∧ acts = [.called]) ∨
    thread'.todo = thread.todo ∧
      thread'.answers = (System.answersIn acts).reverse ++ thread.answers ∧
      thread.point.Leads r ring acts thread'.point := by
  cases turn with
  | call request todo answers => exact .inl ⟨request, rfl, rfl, rfl, rfl, rfl⟩
  | access todo answers leads => exact .inr ⟨rfl, rfl, leads⟩

/-- What every turn of a thread keeps, with its calls and its acts so far, holds of each thread. -/
theorem Reachable.thread {r : Ring α} {calls : List (List (Request α))} {s : System α}
    (reachable : Reachable (System.start r calls) s)
    (P : List (Request α) → Thread α → List (Act α) → Prop)
    (fresh : ∀ requests, P requests (Thread.fresh requests) [])
    (turn : ∀ (r ring : Ring α) requests thread thread' before acts, P requests thread before →
      Turn r thread ring thread' acts → P requests thread' (before ++ acts))
    {i : Nat} {thread : Thread α} (found : s.threads[i]? = some thread) :
    ∃ requests, calls[i]? = some requests ∧ P requests thread (s.actsOf i) := by
  -- For all threads at once, because any of them may have had the last turn.
  have all : ∀ j thread, s.threads[j]? = some thread →
      ∃ requests, calls[j]? = some requests ∧ P requests thread (s.actsOf j) := by
    apply reachable.invariant
    · intro j thread found
      simp only [System.start, List.getElem?_map, Option.map_eq_some_iff] at found
      obtain ⟨requests, called, rfl⟩ := found
      exact ⟨requests, called, fresh requests⟩
    · intro s k thread ring thread' acts _ ih found turned j other there
      by_cases same : k = j
      · subst same
        rw [System.threads_after_same found] at there
        cases there
        obtain ⟨requests, called, holds⟩ := ih k thread found
        refine ⟨requests, called, ?_⟩
        rw [System.actsOf_after_same]
        exact turn _ _ _ _ _ _ _ holds turned
      · rw [System.threads_after_other same] at there
        rw [System.actsOf_after_other same]
        exact ih j other there
  exact all i thread found

/-- Thread `i` makes the act in its next turn, after the earlier acts. -/
def System.Makes (t : System α) (i : Nat) (act : Act α) (earlier : List (Nat × Act α)) : Prop :=
  ∃ thread ring thread' before after, t.threads[i]? = some thread ∧
    Turn t.ring thread ring thread' (before ++ act :: after) ∧
    earlier = (before.map fun act => (i, act)).reverse ++ t.history

/-- Every act of the history was made in a turn. -/
theorem Reachable.moment {first s : System α} (reachable : Reachable first s)
    (fresh : first.history = []) {later earlier : List (Nat × Act α)} {i : Nat} {act : Act α}
    (split : s.history = later ++ (i, act) :: earlier) :
    ∃ t : System α, Reachable first t ∧ Reachable t s ∧ t.Makes i act earlier := by
  induction reachable generalizing later with
  | start =>
    rw [fresh] at split
    cases later <;> cases split
  | @next s t reached step ih =>
    -- The act is an old one, or one of the acts of the last turn.
    have old : ∀ later, s.history = later ++ (i, act) :: earlier →
        ∃ u : System α, Reachable first u ∧ Reachable u t ∧ u.Makes i act earlier := by
      intro later split
      obtain ⟨u, before, after, makes⟩ := ih split
      exact ⟨u, before, after.next step, makes⟩
    obtain ⟨j, thread, ring, thread', acts, found, turn, result⟩ := step.turn
    rw [result] at split
    rcases List.append_eq_append_iff.mp split with ⟨middle, -, rest⟩ | ⟨newer, new, rest⟩
    · exact old middle rest
    · cases newer with
      | nil => exact old [] rest.symm
      | cons last newer =>
        obtain ⟨rfl, rfl⟩ := List.cons.inj rest
        have made := congrArg List.reverse new
        rw [List.reverse_reverse, List.reverse_append, List.reverse_cons, List.append_assoc] at made
        obtain ⟨before, others, rfl, same, these⟩ := List.map_eq_append_iff.mp made
        obtain ⟨this, after, rfl, here, -⟩ := List.map_eq_cons_iff.mp these
        obtain ⟨rfl, rfl⟩ := Prod.mk.inj here
        refine ⟨s, reached, .next .start step, thread, ring, thread', before, after,
          found, turn, ?_⟩
        rw [same, List.reverse_reverse]
        rfl

end RingQueue.Protocol
