import Mathlib.Tactic.Common
import RingQueue.Proofs.Protocol.Stage
import RingQueue.Protocol.Scenario

/-!
What the history of a system tells: the positions claimed and extracted, and the values that went in
and came out.

The history lists the last act first; here acts are read in the order in which they were made. Every
account of them is a list that grows at its end.
-/
namespace RingQueue.Protocol

variable {α : Type}

/-- The acts of a history in the order in which they were made. -/
def actsIn (history : List (Nat × Act α)) : List (Act α) := (history.map Prod.snd).reverse

/-- The acts of one thread in their order. -/
def actsBy (i : Nat) (history : List (Nat × Act α)) : List (Act α) :=
  actsIn (history.filter fun act => act.1 = i)

theorem actsIn_append (later earlier : List (Nat × Act α)) :
    actsIn (later ++ earlier) = actsIn earlier ++ actsIn later := by
  rw [actsIn, List.map_append, List.reverse_append]
  rfl

theorem actsIn_cons (i : Nat) (act : Act α) (earlier : List (Nat × Act α)) :
    actsIn ((i, act) :: earlier) = actsIn earlier ++ [act] := by
  rw [actsIn, List.map_cons, List.reverse_cons]
  rfl

theorem actsBy_sublist (i : Nat) (history : List (Nat × Act α)) :
    List.Sublist (actsBy i history) (actsIn history) :=
  (List.filter_sublist.map Prod.snd).reverse

/-- The acts of a turn come last among those of its thread. -/
theorem actsBy_turn (i : Nat) (acts : List (Act α)) (history : List (Nat × Act α)) :
    actsBy i ((acts.map fun act => (i, act)).reverse ++ history) = actsBy i history ++ acts := by
  simp [actsBy, actsIn, List.filter_map, Function.comp_def]

/-! ## Accounts of acts -/

/-- The positions claimed, each with the entry it was claimed for. -/
def claimsIn (acts : List (Act α)) : List (Nat × α) :=
  acts.filterMap fun
    | .claimed position a => some (position, a)
    | _ => none

/-- The positions extracted. -/
def extractionsIn (acts : List (Act α)) : List Nat :=
  acts.filterMap fun
    | .extracted position => some position
    | _ => none

/-- The positions whose slots were emptied, each with the entry that was in it. -/
def emptyingsIn (acts : List (Act α)) : List (Nat × α) :=
  acts.filterMap fun
    | .emptied position a => some (position, a)
    | _ => none

/-- The entries handed out by pops. -/
def poppedIn (acts : List (Act α)) : List α :=
  acts.filterMap fun
    | .answered (.popped (some a)) => some a
    | _ => none

/-- The entries handed out by pushes that had evicted them. -/
def evictedIn (acts : List (Act α)) : List α :=
  acts.filterMap fun
    | .answered (.stored (some a)) => some a
    | _ => none

/-- The evicted entries that no push handed out. -/
def droppedIn (acts : List (Act α)) : List α :=
  acts.filterMap fun
    | .dropped a => some a
    | _ => none

def Act.isCall : Act α → Bool
  | called => true
  | _ => false

/-- The acts since the last call was taken up. -/
def sinceCall (acts : List (Act α)) : List (Act α) :=
  (acts.reverse.takeWhile fun act => !act.isCall).reverse

section Appending

variable (first second : List (Act α))

@[simp] theorem claimsIn_append :
    claimsIn (first ++ second) = claimsIn first ++ claimsIn second :=
  List.filterMap_append

@[simp] theorem extractionsIn_append :
    extractionsIn (first ++ second) = extractionsIn first ++ extractionsIn second :=
  List.filterMap_append

@[simp] theorem emptyingsIn_append :
    emptyingsIn (first ++ second) = emptyingsIn first ++ emptyingsIn second :=
  List.filterMap_append

@[simp] theorem poppedIn_append : poppedIn (first ++ second) = poppedIn first ++ poppedIn second :=
  List.filterMap_append

@[simp] theorem evictedIn_append :
    evictedIn (first ++ second) = evictedIn first ++ evictedIn second :=
  List.filterMap_append

@[simp] theorem droppedIn_append :
    droppedIn (first ++ second) = droppedIn first ++ droppedIn second :=
  List.filterMap_append

@[simp] theorem answersIn_append : System.answersIn (first ++ second) =
    System.answersIn first ++ System.answersIn second :=
  List.filterMap_append

end Appending

theorem answersIn_popped (acts : List (Act α)) :
    (System.answersIn acts).filterMap Response.poppedEntry? = poppedIn acts := by
  rw [System.answersIn, List.filterMap_filterMap, poppedIn]
  congr 1
  funext act
  cases act with
  | answered response =>
    cases response with
    | popped entry => cases entry <;> rfl
    | _ => rfl
  | _ => rfl

theorem sinceCall_called (acts : List (Act α)) : sinceCall (acts ++ [.called]) = [] := by
  simp [sinceCall, Act.isCall]

theorem sinceCall_sublist (acts : List (Act α)) : List.Sublist (sinceCall acts) acts := by
  have kept := (List.takeWhile_sublist (l := acts.reverse) fun act => !act.isCall).reverse
  rw [List.reverse_reverse] at kept
  exact kept

theorem sinceCall_append (acts : List (Act α)) {more : List (Act α)}
    (inside : ∀ act ∈ more, act.isCall = false) :
    sinceCall (acts ++ more) = sinceCall acts ++ more := by
  rw [sinceCall, List.reverse_append, List.takeWhile_append_of_pos, List.reverse_append,
    List.reverse_reverse]
  · rfl
  · intro act member
    simpa using inside act (List.mem_reverse.mp member)

/-- Claims move a cursor. -/
theorem claimsIn_filter (acts : List (Act α)) :
    claimsIn (acts.filter Act.isCursor) = claimsIn acts := by
  rw [claimsIn, List.filterMap_filter]
  congr 1
  funext act
  cases act <;> rfl

theorem emptyingsIn_filter (acts : List (Act α)) :
    emptyingsIn (acts.filter Act.isCursor) = emptyingsIn acts := by
  rw [emptyingsIn, List.filterMap_filter]
  congr 1
  funext act
  cases act <;> rfl

theorem extractionsIn_filter (acts : List (Act α)) :
    extractionsIn (acts.filter Act.isCursor) = extractionsIn acts := by
  rw [extractionsIn, List.filterMap_filter]
  congr 1
  funext act
  cases act <;> rfl

/-! ## The acts of a system -/

namespace System

def acts (s : System α) : List (Act α) := actsIn s.history

def actsOf (s : System α) (i : Nat) : List (Act α) := actsBy i s.history

/-- What the threads hold. -/
def stages (s : System α) : List (Stage α) := s.threads.map fun thread => thread.point.stage

variable {s : System α} {ring : Ring α} {thread : Thread α} {acts : List (Act α)} {i j : Nat}

@[simp] theorem acts_after : (s.after i ring thread acts).acts = s.acts ++ acts := by
  simp [System.acts, actsIn, after, Function.comp_def]

@[simp] theorem actsOf_after_same : (s.after i ring thread acts).actsOf i = s.actsOf i ++ acts :=
  actsBy_turn i acts s.history

theorem actsOf_after_other (other : i ≠ j) :
    (s.after i ring thread acts).actsOf j = s.actsOf j := by
  simp [actsOf, actsBy, actsIn, after, List.filter_map, Function.comp_def, other]

@[simp] theorem stages_after :
    (s.after i ring thread acts).stages = s.stages.set i thread.point.stage := by
  simp only [stages, after, List.map_set]

theorem threads_after_same {now : Thread α} (found : s.threads[i]? = some now) :
    (s.after i ring thread acts).threads[i]? = some thread :=
  List.getElem?_set_self (List.getElem?_eq_some_iff.mp found).1

theorem threads_after_other (other : i ≠ j) :
    (s.after i ring thread acts).threads[j]? = s.threads[j]? :=
  List.getElem?_set_ne other

theorem stages_getElem? (found : s.threads[i]? = some thread) :
    s.stages[i]? = some thread.point.stage := by
  simp only [stages, List.getElem?_map, found, Option.map_some]

end System

end RingQueue.Protocol
