import Mathlib.Tactic.Common
import RingQueue.Proofs.Protocol.Tally
import RingQueue.Protocol.Machine

/-!
Everything that one thread can do when it goes next.

`Point.Leads` lists the accesses with their guards, with what they do to the ring, and with the acts
they make; `leads_advance` says that `advance` does nothing else. A `Turn` is such an access, or the
start of a call. All that is said of runs is drawn from these two, and none of it opens `advance`
again, except where a thread has to go on and not only may.
-/
namespace RingQueue.Protocol

variable {α : Type}

/-- How a thread can go on inside a call. An exchange of `read` can miss although nothing stands
against it. -/
inductive Point.Leads (r : Ring α) : Point α → Ring α → List (Act α) → Point α → Prop
  | wait (point : Point α) : Leads r point r [] point
  | room (push : Push α) (kept : Option α) : r.size < r.capacity →
    Leads r (.raiseSize push kept) { r with size := r.size + 1 } [.admitted] (.construct push kept)
  | noRoom (push : Push α) (kept : Option α) : r.capacity ≤ r.size →
    Leads r (.raiseSize push kept) { r with size := r.size + 1 } [] (.undoRaise push kept)
  | again (push : Push α) (kept : Option α) : push.policy ≠ .overwrite →
    Leads r (.undoRaise push kept) { r with size := r.size - 1 } [] (.raiseSize push kept)
  | evict (push : Push α) (kept : Option α) : push.policy = .overwrite →
    Leads r (.undoRaise push kept) { r with size := r.size - 1 } [] (.findFront (.evict push kept))
  | turnDown (push : Push α) (kept : Option α) : push.policy = .reject →
    Leads r (.undoRaise push kept) { r with size := r.size - 1 }
      [.answered (.turnedDown push.value)] .idle
  | constructed (push : Push α) (kept : Option α) : push.breaksOff = false →
    Leads r (.construct push kept) r [] (.claim push kept)
  | breakOff (push : Push α) (kept : Option α) : push.breaksOff = true →
    Leads r (.construct push kept) r [] (.returnRoom push kept)
  | giveUp (push : Push α) (kept : Option α) :
    Leads r (.returnRoom push kept) { r with size := r.size - 1 }
      (dropActs kept ++ [.answered .brokeOff]) .idle
  | claim (push : Push α) (kept : Option α) :
    Leads r (.claim push kept) { r with write := r.write + 1 } [.claimed r.write push.value]
      (.awaitSlot r.write push kept)
  | slotFree (position : Nat) (push : Push α) (kept : Option α) : r.slotIsFree position = true →
    Leads r (.awaitSlot position push kept) r [] (.fillSlot position push kept)
  | fill (position : Nat) (push : Push α) (kept : Option α) :
    Leads r (.fillSlot position push kept)
      { r with slots := r.setSlot position (some push.value) } [] (.awaitTurn position push kept)
  | onTurn (position : Nat) (push : Push α) (kept : Option α) : r.visible = position →
    Leads r (.awaitTurn position push kept) r [] (.publish position push kept)
  | publish (position : Nat) (push : Push α) (kept : Option α) :
    Leads r (.publish position push kept) { r with visible := position + 1 }
      [.published position, .answered (.stored kept)] .idle
  | front (position : Nat) (errand : Errand α) : r.read = .next position →
    Leads r (.findFront errand) r [] (.checkFront position errand)
  | popNothing (position : Nat) : r.visible ≤ position →
    Leads r (.checkFront position .pop) r [.answered (.popped none)] .idle
  | awaitEntry (position : Nat) : r.visible ≤ position →
    Leads r (.checkFront position .popWaiting) r [] (.findFront .popWaiting)
  | evictNothing (position : Nat) (push : Push α) (kept : Option α) : r.visible ≤ position →
    Leads r (.checkFront position (.evict push kept)) r [] (.raiseSize push kept)
  | unread (position : Nat) (errand : Errand α) : position < r.visible →
    Leads r (.checkFront position errand) r [] (.takeFront position errand)
  | extract (position : Nat) (errand : Errand α) : r.read = .next position →
    Leads r (.takeFront position errand) { r with read := .next (position + 1) }
      [.extracted position] (.emptySlot position errand)
  | missTake (position : Nat) (errand : Errand α) :
    Leads r (.takeFront position errand) r [] (.findFront errand)
  | empty (position : Nat) (errand : Errand α) (a : α) : r.entry position = some a →
    Leads r (.emptySlot position errand) { r with slots := r.setSlot position none }
      [.emptied position a] (.awaitLeave position a errand)
  | mayLeave (position : Nat) (a : α) (errand : Errand α) : r.freed = position →
    Leads r (.awaitLeave position a errand) r [] (.leaveSlot position a errand)
  | leave (position : Nat) (a : α) (errand : Errand α) :
    Leads r (.leaveSlot position a errand) { r with freed := position + 1 } [.released position]
      (.lowerSize a errand)
  | handOut (a : α) :
    Leads r (.lowerSize a .pop) { r with size := r.size - 1 } [.answered (.popped (some a))] .idle
  | handOver (a : α) :
    Leads r (.lowerSize a .popWaiting) { r with size := r.size - 1 }
      [.answered (.popped (some a))] .idle
  | keep (a : α) (push : Push α) :
    Leads r (.lowerSize a (.evict push none)) { r with size := r.size - 1 } []
      (.raiseSize push (some a))
  | drop (a : α) (push : Push α) (kept : α) :
    Leads r (.lowerSize a (.evict push (some kept))) { r with size := r.size - 1 } [.dropped a]
      (.raiseSize push (some kept))
  | pinAt (position : Nat) (visit : Visit) : r.read = .next position →
    Leads r (.findPin visit) r [] (.setPin position visit)
  | pin (position : Nat) (visit : Visit) : r.read = .next position →
    Leads r (.setPin position visit) { r with read := .pinned } [] (.checkPinned position visit)
  | missPin (position : Nat) (visit : Visit) :
    Leads r (.setPin position visit) r [] (.findPin visit)
  | look (position stop : Nat) (visit : Visit) : stop ≤ r.visible →
    Leads r (.checkPinned position visit) r [] (.cloneSlot position position stop [] visit)
  | clone (position next stop : Nat) (clones : List α) (visit : Visit) (a : α) :
    next < stop → r.entry next = some a →
    Leads r (.cloneSlot position next stop clones visit) r []
      (.cloneSlot position (next + 1) stop (a :: clones) visit)
  | cloned (position next stop : Nat) (clones : List α) (visit : Visit) : stop ≤ next →
    Leads r (.cloneSlot position next stop clones visit) r []
      (.clearPin position clones.reverse visit)
  | unpin (position : Nat) (clones : List α) (visit : Visit) :
    Leads r (.clearPin position clones visit) { r with read := .next position }
      [.answered (visit.response clones)] .idle
  | size : Leads r .readSize r [.answered (.length r.len)] .idle

/-- Every access leads on. -/
theorem leads_advance (r : Ring α) (point : Point α) :
    point.Leads r (advance r point).ring (advance r point).acts (advance r point).point := by
  cases point with
  | idle => exact .wait _
  | raiseSize push kept =>
    simp only [advance]
    split
    · exact .room push kept ‹_›
    · exact .noRoom push kept (Nat.le_of_not_lt ‹_›)
  | undoRaise push kept =>
    simp only [advance, afterRefusal]
    split
    · exact .again push kept (by simp [*])
    · exact .evict push kept ‹_›
    · split
      · exact .again push kept (by simp [*])
      · exact .turnDown push kept ‹_›
  | construct push kept =>
    simp only [advance]
    split
    · exact .breakOff push kept ‹_›
    · exact .constructed push kept (Bool.not_eq_true _ ▸ ‹_›)
  | returnRoom push kept => exact .giveUp push kept
  | claim push kept => exact .claim push kept
  | awaitSlot position push kept =>
    simp only [advance]
    split
    · exact .slotFree position push kept ‹_›
    · exact .wait _
  | fillSlot position push kept => exact .fill position push kept
  | awaitTurn position push kept =>
    simp only [advance]
    split
    · exact .onTurn position push kept ‹_›
    · exact .wait _
  | publish position push kept => exact .publish position push kept
  | findFront errand =>
    simp only [advance]
    split
    · exact .wait _
    · exact .front _ errand ‹_›
  | checkFront position errand =>
    simp only [advance]
    split
    · cases errand with
      | pop => exact .popNothing position ‹_›
      | popWaiting => exact .awaitEntry position ‹_›
      | evict push kept => exact .evictNothing position push kept ‹_›
    · exact .unread position errand (Nat.lt_of_not_le ‹_›)
  | takeFront position errand =>
    simp only [advance]
    split
    · exact .extract position errand ‹_›
    · exact .missTake position errand
  | emptySlot position errand =>
    simp only [advance]
    split
    · exact .wait _
    · exact .empty position errand _ ‹_›
  | awaitLeave position a errand =>
    simp only [advance]
    split
    · exact .mayLeave position a errand ‹_›
    · exact .wait _
  | leaveSlot position a errand => exact .leave position a errand
  | lowerSize a errand =>
    cases errand with
    | pop => exact .handOut a
    | popWaiting => exact .handOver a
    | evict push kept =>
      cases kept with
      | none => exact .keep a push
      | some kept => exact .drop a push kept
  | findPin visit =>
    simp only [advance]
    split
    · exact .wait _
    · exact .pinAt _ visit ‹_›
  | setPin position visit =>
    simp only [advance]
    split
    · exact .pin position visit ‹_›
    · exact .missPin position visit
  | checkPinned position visit =>
    cases visit with
    | peek => exact .look position _ .peek (Nat.min_le_left _ _)
    | duplicate => exact .look position _ .duplicate (Nat.le_refl _)
  | cloneSlot position next stop clones visit =>
    simp only [advance]
    split
    · exact .cloned position next stop clones visit ‹_›
    · split
      · exact .wait _
      · exact .clone position next stop clones visit _ (Nat.lt_of_not_le ‹_›) ‹_›
  | clearPin position clones visit => exact .unpin position clones visit
  | readSize => exact .size

/-- One thread goes on: it takes up its next call, or it goes on inside a call. -/
inductive Turn (r : Ring α) : Thread α → Ring α → Thread α → List (Act α) → Prop
  | call (request : Request α) (todo : List (Request α)) (answers : List (Response α)) :
    Turn r ⟨.idle, request :: todo, answers⟩ r ⟨request.start, todo, answers⟩ [.called]
  | access {point point' : Point α} {ring : Ring α} {acts : List (Act α)}
    (todo : List (Request α)) (answers : List (Response α)) : point.Leads r ring acts point' →
    Turn r ⟨point, todo, answers⟩ ring
      ⟨point', todo, (System.answersIn acts).reverse ++ answers⟩ acts

/-- The system once thread `i` has gone on. -/
def System.after (s : System α) (i : Nat) (ring : Ring α) (thread : Thread α)
    (acts : List (Act α)) : System α :=
  ⟨ring, s.threads.set i thread, (acts.map fun act => (i, act)).reverse ++ s.history⟩

namespace System

variable {s : System α} {i : Nat} {point : Point α} {todo : List (Request α)}
  {answers : List (Response α)}

theorem runThread_call {request : Request α}
    (found : s.threads[i]? = some ⟨.idle, request :: todo, answers⟩) :
    s.runThread i = s.after i s.ring ⟨request.start, todo, answers⟩ [.called] := by
  simp only [runThread, found]
  rfl

theorem runThread_access (found : s.threads[i]? = some ⟨point, todo, answers⟩)
    (inside : point ≠ .idle) :
    s.runThread i = s.after i (advance s.ring point).ring
      ⟨(advance s.ring point).point, todo,
        (answersIn (advance s.ring point).acts).reverse ++ answers⟩
          (advance s.ring point).acts := by
  cases point with
  | idle => exact absurd rfl inside
  | _ =>
    simp only [runThread, found]
    rfl

end System

/-- Every step is a turn of one thread. -/
theorem Step.turn {s t : System α} (h : Step s t) :
    ∃ i thread ring thread' acts, s.threads[i]? = some thread ∧
      Turn s.ring thread ring thread' acts ∧ t = s.after i ring thread' acts := by
  cases h with
  | run i inside =>
    obtain ⟨⟨point, todo, answers⟩, found⟩ : ∃ thread, s.threads[i]? = some thread :=
      ⟨_, List.getElem?_eq_getElem inside⟩
    by_cases idle : point = .idle
    · subst idle
      cases todo with
      | nil =>
        -- A thread that is done stays where it is, which counts as waiting.
        have same : s.threads.set i ⟨.idle, [], answers⟩ = s.threads := set_same found
        refine ⟨i, _, _, _, _, found, .access [] answers (.wait .idle), ?_⟩
        simp only [System.runThread, found]
        simp [System.after, System.answersIn, same]
      | cons request todo =>
        exact ⟨i, _, _, _, _, found, .call request todo answers, System.runThread_call found⟩
    · exact ⟨i, _, _, _, _, found, .access todo answers (leads_advance s.ring point),
        System.runThread_access found idle⟩
  | missedTake i thread position errand found point =>
    obtain ⟨_, todo, answers⟩ := thread
    cases point
    exact ⟨i, _, _, _, _, found, .access todo answers (.missTake position errand), rfl⟩
  | missedPin i thread position visit found point =>
    obtain ⟨_, todo, answers⟩ := thread
    cases point
    exact ⟨i, _, _, _, _, found, .access todo answers (.missPin position visit), rfl⟩

/-- What one turn keeps, every run keeps. -/
theorem Reachable.invariant {first s : System α} (reachable : Reachable first s)
    (P : System α → Prop) (start : P first)
    (turn : ∀ (s : System α) i thread ring thread' acts, Reachable first s → P s →
      s.threads[i]? = some thread → Turn s.ring thread ring thread' acts →
      P (s.after i ring thread' acts)) : P s := by
  induction reachable with
  | start => exact start
  | next before step ih =>
    obtain ⟨i, thread, ring, thread', acts, found, turned, rfl⟩ := step.turn
    exact turn _ i thread ring thread' acts before ih found turned

end RingQueue.Protocol
