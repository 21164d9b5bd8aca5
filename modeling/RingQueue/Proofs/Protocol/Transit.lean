import Mathlib.Tactic.Common
import RingQueue.Proofs.Protocol.Fates

/-!
One thread on its way to push values, another one on its way to pop entries.

`Transit` says where the two are, what they have done and what they still have to do. Each keeps its
own part by its turns and cannot disturb the other's.
-/
namespace RingQueue.Protocol

variable {α : Type}

/-- Thread 0 pushes the values, thread 1 pops so many entries. -/
def System.beforeHandOver (r : Ring α) (values : List α) (n : Nat) : System α :=
  .start r [values.map .pushWaiting, .replicate n .popWaiting]

/-! ## The two threads -/

def Push.Waits (push : Push α) : Prop := push.policy = .block ∧ push.breaksOff = false

namespace Point

def Pushing : Point α → Prop
  | idle => True
  | raiseSize push _ => push.Waits
  | undoRaise push _ => push.Waits
  | construct push _ => push.Waits
  | claim push _ => push.Waits
  | awaitSlot _ push _ => push.Waits
  | fillSlot _ push _ => push.Waits
  | awaitTurn _ push _ => push.Waits
  | publish _ push _ => push.Waits
  | _ => False

/-- The only thread that extracts entries finds `read` where it was. -/
def Popping (r : Ring α) : Point α → Prop
  | idle => True
  | findFront errand => errand = .popWaiting
  | checkFront position errand => errand = .popWaiting ∧ r.read = .next position
  | takeFront position errand => errand = .popWaiting ∧ r.read = .next position
  | emptySlot _ errand => errand = .popWaiting
  | awaitLeave _ _ errand => errand = .popWaiting
  | leaveSlot _ _ errand => errand = .popWaiting
  | lowerSize _ errand => errand = .popWaiting
  | _ => False

/-- A call that has yet to extract an entry. -/
def wanting : Point α → Nat
  | findFront _ => 1
  | checkFront _ _ => 1
  | takeFront _ _ => 1
  | _ => 0

end Point

/-- The answer to a pop that got an entry. -/
def gotEntry (a : α) : Response α := .popped (some a)

/-- The pushing thread `p` and the popping thread `k` on their way. -/
structure Transit (values : List α) (n : Nat) (s : System α) (p k : Thread α) : Prop where
  threads : s.threads = [p, k]
  pushing : p.point.Pushing
  popping : k.point.Popping s.ring
  pushes : ∃ rest : List α, p.todo = rest.map .pushWaiting ∧
    (claimsIn s.acts).map Prod.snd ++ p.point.unclaimed ++ rest = values
  pops : ∃ m, k.todo = .replicate m .popWaiting ∧
    (extractionsIn s.acts).length + k.point.wanting + m = n
  emptied : (emptyingsIn s.acts).map Prod.fst ++ k.point.pending = extractionsIn s.acts
  reads : k.responses ++ k.point.handsOut.map gotEntry =
    ((emptyingsIn s.acts).map Prod.snd).map gotEntry

section Leads

variable {r ring : Ring α} {point point' : Point α} {acts : List (Act α)}

theorem Point.Leads.pushing (h : point.Leads r ring acts point') (pushing : point.Pushing) :
    point'.Pushing ∧ (claimsIn acts).map Prod.snd ++ point'.unclaimed = point.unclaimed ∧
      extractionsIn acts = [] ∧ emptyingsIn acts = [] := by
  cases h with
  | wait => exact ⟨pushing, rfl, rfl, rfl⟩
  -- A push that waits neither evicts nor is turned down, and its constructor does not break off.
  | evict push kept overwrite =>
    have block := pushing.1
    rw [overwrite] at block
    cases block
  | turnDown push kept reject =>
    have block := pushing.1
    rw [reject] at block
    cases block
  | breakOff push kept breaks =>
    have sound := pushing.2
    rw [breaks] at sound
    cases sound
  | publish position push kept => exact ⟨trivial, rfl, rfl, rfl⟩
  | room | noRoom | again | constructed | claim | slotFree | fill | onTurn =>
    exact ⟨pushing, rfl, rfl, rfl⟩
  | _ => exact pushing.elim

theorem Point.Leads.popping (h : point.Leads r ring acts point') (popping : point.Popping r) :
    point'.Popping ring ∧ claimsIn acts = [] ∧
      (extractionsIn acts).length + point'.wanting = point.wanting ∧
      System.answersIn acts ++ point'.handsOut.map gotEntry =
        point.handsOut.map gotEntry ++ ((emptyingsIn acts).map Prod.snd).map gotEntry := by
  cases h with
  | wait =>
    refine ⟨popping, rfl, Nat.zero_add _, ?_⟩
    exact (List.append_nil _).symm
  | front position errand read => exact ⟨⟨popping, read⟩, rfl, rfl, rfl⟩
  | awaitEntry => exact ⟨rfl, rfl, rfl, rfl⟩
  | unread => exact ⟨popping, rfl, rfl, rfl⟩
  | extract | missTake => exact ⟨popping.1, rfl, rfl, rfl⟩
  | empty | mayLeave | leave =>
    cases popping
    exact ⟨rfl, rfl, rfl, rfl⟩
  | handOver => exact ⟨trivial, rfl, rfl, rfl⟩
  -- What is not on the way of a pop that waits.
  | popNothing | evictNothing => cases popping.1
  | handOut | keep | drop => cases popping
  | _ => exact popping.elim

end Leads

section Turns

variable {values : List α} {n : Nat} {s : System α} {p k p' k' : Thread α} {ring : Ring α}
  {acts : List (Act α)}

/-- A push leaves `read` alone. -/
theorem Turn.read_of_pushing {r : Ring α} (turn : Turn r p ring p' acts)
    (pushing : p.point.Pushing) : ring.read = r.read := by
  cases turn with
  | call => rfl
  | access todo answers leads =>
    cases leads with
    | extract | pin | unpin => exact pushing.elim
    | _ => rfl

theorem Point.Popping.of_read {r : Ring α} {point : Point α} (h : point.Popping r)
    (read : ring.read = r.read) : point.Popping ring := by
  cases point with
  | checkFront position errand => exact ⟨h.1, read.trans h.2⟩
  | takeFront position errand => exact ⟨h.1, read.trans h.2⟩
  | _ => exact h

theorem Transit.push_turn (h : Transit values n s p k) (turn : Turn s.ring p ring p' acts) :
    Transit values n (s.after 0 ring p' acts) p' k := by
  obtain ⟨rest, todo, pushes⟩ := h.pushes
  have threads : (s.after 0 ring p' acts).threads = [p', k] := by
    simp only [System.after, h.threads, List.set_cons_zero]
  have popping := h.popping.of_read (turn.read_of_pushing h.pushing)
  rcases turn.leads with ⟨request, idle, called, start, -, rfl⟩ | ⟨same, -, leads⟩
  · -- The next value moves from the calls to be made to the one in progress.
    rw [todo] at called
    cases rest with
    | nil => cases called
    | cons a rest =>
      obtain ⟨rfl, todo'⟩ := List.cons.inj called
      rw [idle] at pushes
      refine ⟨threads, ?_, popping, ⟨rest, todo'.symm, ?_⟩, ?_, ?_, ?_⟩
      · rw [start]
        exact ⟨rfl, rfl⟩
      · rw [start, System.acts_after, claimsIn_append, ← pushes]
        simp [Request.start, Request.pushWaiting, Point.unclaimed, claimsIn]
      · rw [System.acts_after, extractionsIn_append]
        simpa [extractionsIn] using h.pops
      · rw [System.acts_after, extractionsIn_append, emptyingsIn_append]
        simpa [extractionsIn, emptyingsIn] using h.emptied
      · rw [System.acts_after, emptyingsIn_append]
        simpa [emptyingsIn] using h.reads
  · obtain ⟨pushing, claims, extractions, emptyings⟩ := leads.pushing h.pushing
    refine ⟨threads, pushing, popping, ⟨rest, same.trans todo, ?_⟩, ?_, ?_, ?_⟩
    · rw [System.acts_after, claimsIn_append, List.map_append, ← pushes, ← claims]
      simp only [List.append_assoc]
    · rw [System.acts_after, extractionsIn_append, extractions, List.append_nil]
      exact h.pops
    · rw [System.acts_after, extractionsIn_append, emptyingsIn_append, extractions, emptyings,
        List.append_nil, List.append_nil]
      exact h.emptied
    · rw [System.acts_after, emptyingsIn_append, emptyings, List.append_nil]
      exact h.reads

theorem Transit.pop_turn (h : Transit values n s p k) (turn : Turn s.ring k ring k' acts) :
    Transit values n (s.after 1 ring k' acts) p k' := by
  obtain ⟨m, todo, pops⟩ := h.pops
  have threads : (s.after 1 ring k' acts).threads = [p, k'] := by
    simp only [System.after, h.threads, List.set_cons_succ, List.set_cons_zero]
  rcases turn.leads with ⟨request, idle, called, start, answers, rfl⟩ | ⟨same, answers, leads⟩
  · -- One more pop is in progress and one less to be made.
    rw [todo] at called
    cases m with
    | zero => cases called
    | succ m =>
      obtain ⟨rfl, todo'⟩ := List.cons.inj called
      have emptied := h.emptied
      have reads := h.reads
      rw [idle] at pops emptied reads
      refine ⟨threads, h.pushing, ?_, ?_, ⟨m, todo'.symm, ?_⟩, ?_, ?_⟩
      · rw [start]
        rfl
      · rw [System.acts_after, claimsIn_append]
        simpa [claimsIn] using h.pushes
      · rw [start, System.acts_after, extractionsIn_append]
        simp only [Request.start, Point.wanting, extractionsIn, List.filterMap_cons,
          List.filterMap_nil, List.append_nil] at pops ⊢
        omega
      · rw [start, System.acts_after, extractionsIn_append, emptyingsIn_append]
        simpa [extractionsIn, emptyingsIn, Request.start, Point.pending] using emptied
      · rw [start, Thread.responses, answers, System.acts_after, emptyingsIn_append]
        simpa [emptyingsIn, Request.start, Point.handsOut, Thread.responses] using reads
  · obtain ⟨popping, claims, extractions, given⟩ := leads.popping h.popping
    refine ⟨threads, h.pushing, popping, ?_, ⟨m, same.trans todo, ?_⟩, ?_, ?_⟩
    · rw [System.acts_after, claimsIn_append, claims, List.append_nil]
      exact h.pushes
    · rw [System.acts_after, extractionsIn_append, List.length_append]
      omega
    · rw [System.acts_after, extractionsIn_append, emptyingsIn_append, List.map_append,
        List.append_assoc, leads.pending, ← List.append_assoc, h.emptied]
    · rw [System.acts_after, emptyingsIn_append, List.map_append, List.map_append, ← h.reads,
        Thread.responses, answers, List.reverse_append, List.reverse_reverse, List.append_assoc,
        given, List.append_assoc]
      rfl

end Turns

section Runs

variable {r : Ring α} {values : List α} {n : Nat} {s : System α}

theorem Reachable.transit (reachable : Reachable (System.beforeHandOver r values n) s) :
    ∃ p k, Transit values n s p k := by
  apply reachable.invariant fun s => ∃ p k, Transit values n s p k
  · refine ⟨_, _, rfl, trivial, trivial, ⟨values, rfl, rfl⟩, ⟨n, rfl, ?_⟩, rfl, rfl⟩
    exact Nat.zero_add n
  · intro s i thread ring thread' acts _ ⟨p, k, h⟩ found turn
    -- There are only these two whose turn it can be.
    rw [h.threads] at found
    match i with
    | 0 =>
      cases found
      exact ⟨thread', k, h.push_turn turn⟩
    | 1 =>
      cases found
      exact ⟨p, thread', h.pop_turn turn⟩
    | i + 2 => cases found

end Runs

/-! ## Counts -/

section Ends

variable {values unread : List α} {n c first : Nat} {s : System α} {p k : Thread α}

theorem Thread.isDone_iff {thread : Thread α} :
    thread.isDone = true ↔ thread.point = .idle ∧ thread.todo = [] := by
  obtain ⟨point, todo, answers⟩ := thread
  constructor
  · intro done
    cases point with
    | idle =>
      cases todo with
      | nil => exact ⟨rfl, rfl⟩
      | cons request todo => cases done
    | _ => cases done
  · rintro ⟨idle, none⟩
    cases idle
    cases none
    rfl

theorem Transit.isDone_iff (h : Transit values n s p k) :
    s.isDone = true ↔ p.isDone = true ∧ k.isDone = true := by
  simp only [System.isDone, h.threads, List.all_cons, List.all_nil, Bool.and_true, Bool.and_eq_true]

theorem Transit.stages (h : Transit values n s p k) :
    s.stages = [p.point.stage, k.point.stage] := by
  simp only [System.stages, h.threads, List.map_cons, List.map_nil]

theorem Transit.all_free (h : Transit values n s p k) (pushing : p.point.stage = .free)
    (popping : k.point.stage = .free) : ∀ σ ∈ s.stages, σ = .free := by
  rw [h.stages, pushing, popping]
  intro σ member
  simpa using member

/-- Threads that hold nothing leave a ring whose counts follow from those of the calls. -/
theorem Transit.counts (h : Transit values n s p k) (sound : s.Sound first c unread)
    (pushing : p.point.stage = .free) (popping : k.point.stage = .free) :
    ∃ pushed popped, pushed + p.point.unclaimed.length + p.todo.length = values.length ∧
      popped + k.point.wanting + k.todo.length = n ∧
      popped ≤ unread.length + pushed ∧
      s.ring.size = unread.length + pushed - popped ∧
      s.ring.visible = first + unread.length + pushed ∧
      s.ring.capacity = c ∧ s.ring.size ≤ c ∧ s.ring.read = .next (first + popped) := by
  obtain ⟨rest, todo, pushes⟩ := h.pushes
  obtain ⟨m, wishes, pops⟩ := h.pops
  obtain ⟨holds, freed⟩ := sound.rest (h.all_free pushing popping)
  have length : (s.entries unread).length = unread.length + (claimsIn s.acts).length := by
    rw [System.entries, List.length_append, List.length_map]
  -- Everything is counted by the claims and the extractions of the history.
  have enough := sound.extracted_le
  have size := holds.size
  have fits := holds.fits
  have visible := holds.visible
  have read := holds.read
  have pushed := congrArg List.length pushes
  rw [System.front] at freed
  simp only [List.length_drop, List.length_append, List.length_map] at size fits visible pushed
  refine ⟨(claimsIn s.acts).length, (extractionsIn s.acts).length, ?_, ?_, ?_, ?_, ?_,
    sound.capacity_eq, ?_, ?_⟩
  · rw [todo, List.length_map]
    exact pushed
  · rw [wishes, List.length_replicate]
    exact pops
  · omega
  · omega
  · omega
  · omega
  · rw [read, freed]

end Ends

end RingQueue.Protocol
