import Mathlib.Tactic.Abel
import RingQueue.Proofs.Protocol.Threads

/-!
Accounts that the acts of a run balance: what came in has gone out, or a thread has it in hand.

An account of one thread is kept in order (`Reachable.flow`), an account of all threads only as a
whole (`Reachable.balance`).
-/
namespace RingQueue.Protocol

open List (Sublist)

variable {α β M : Type}

/-! ## Runs -/

section Runs

variable {r : Ring α} {calls : List (List (Request α))} {s : System α}

/-- If every turn hands out in order what came in, so does a run. -/
theorem Reachable.flow (reachable : Reachable (System.start r calls) s)
    (into out : List (Act α) → List β) (held : Thread α → List β)
    (into_append : ∀ first second, into (first ++ second) = into first ++ into second)
    (out_append : ∀ first second, out (first ++ second) = out first ++ out second)
    (turn : ∀ (r ring : Ring α) thread thread' acts, Turn r thread ring thread' acts →
      Sublist (out acts ++ held thread') (held thread ++ into acts))
    {i : Nat} {thread : Thread α} (found : s.threads[i]? = some thread) :
    ∃ requests, calls[i]? = some requests ∧
      Sublist (out (s.actsOf i) ++ held thread) (held (.fresh requests) ++ into (s.actsOf i)) := by
  apply reachable.thread (fun requests thread acts =>
    Sublist (out acts ++ held thread) (held (.fresh requests) ++ into acts)) ?_ ?_ found
  · intro requests
    have into_nil : into [] = [] := by simpa using into_append [] []
    have out_nil : out [] = [] := by simpa using out_append [] []
    rw [into_nil, out_nil, List.append_nil, List.nil_append]
  · intro r ring requests thread thread' before acts ih turned
    have now := turn r ring thread thread' acts turned
    rw [out_append, into_append, List.append_assoc, ← List.append_assoc (held (.fresh requests))]
    -- First what went out before, then the turn, which starts with what the thread had in hand.
    have hands_on := List.Sublist.append_left now (out before)
    have held_before := ih.append_right (into acts)
    rw [List.append_assoc] at held_before
    exact hands_on.trans held_before

/-- If every turn accounts for what came in, so does a run. -/
theorem Reachable.balance [AddCancelCommMonoid M] (reachable : Reachable (System.start r calls) s)
    (into out : List (Act α) → M) (held : Thread α → M)
    (into_append : ∀ first second, into (first ++ second) = into first + into second)
    (out_append : ∀ first second, out (first ++ second) = out first + out second)
    (fresh : ∀ requests, held (.fresh requests) = 0)
    (turn : ∀ (t : System α) (i : Nat) thread ring thread' acts,
      Reachable (System.start r calls) t → t.threads[i]? = some thread →
        Turn t.ring thread ring thread' acts →
      into acts + held thread = out acts + held thread') :
    into s.acts = out s.acts + tally held s.threads := by
  apply reachable.invariant fun s => into s.acts = out s.acts + tally held s.threads
  · have into_nil : into [] = 0 := by simpa using into_append [] []
    have out_nil : out [] = 0 := by simpa using out_append [] []
    have none_held : tally held (System.start r calls).threads = 0 := by
      apply tally_eq_zero
      intro thread member
      obtain ⟨requests, -, rfl⟩ := List.mem_map.mp member
      exact fresh requests
    rw [none_held, add_zero]
    exact into_nil.trans out_nil.symm
  · intro t i thread ring thread' acts before ih found turned
    -- What the thread had in hand is exchanged for what it has now.
    have now := turn t i thread ring thread' acts before found turned
    have moved := tally_set held found thread'
    rw [System.acts_after, into_append, out_append, ih]
    apply add_right_cancel (b := held thread)
    calc out t.acts + tally held t.threads + into acts + held thread
        = out t.acts + tally held t.threads + (into acts + held thread) := add_assoc ..
      _ = out t.acts + out acts + (tally held t.threads + held thread') := by
        rw [now]
        abel
      _ = out t.acts + out acts + (tally held (t.threads.set i thread') + held thread) := by
        rw [moved]
      _ = out t.acts + out acts + tally held (t.threads.set i thread') + held thread :=
        (add_assoc ..).symm

end Runs

/-! ## What a thread has in hand -/

namespace Errand

/-- The entry that a forced push evicted before. -/
def kept : Errand α → List α
  | evict _ kept => kept.toList
  | _ => []

/-- The value that a forced push is to store. -/
def value : Errand α → List α
  | evict push _ => [push.value]
  | _ => []

/-- The entry that a pop will hand out, once it has one. -/
def handsOut (a : α) : Errand α → List α
  | evict _ _ => []
  | _ => [a]

/-- Entries are evicted for the policy of forced pushes only. -/
def Forced : Errand α → Prop
  | evict push _ => push.policy = .overwrite
  | _ => True

end Errand

namespace Point

/-- A position that was extracted and not emptied. -/
def pending : Point α → List Nat
  | emptySlot position _ => [position]
  | _ => []

/-- An entry that the call will hand out. -/
def handsOut : Point α → List α
  | awaitLeave _ a errand => errand.handsOut a
  | leaveSlot _ a errand => errand.handsOut a
  | lowerSize a errand => errand.handsOut a
  | _ => []

/-- The entries taken out of their slots whose fate is not settled. -/
def held : Point α → List α
  | raiseSize _ kept => kept.toList
  | undoRaise _ kept => kept.toList
  | construct _ kept => kept.toList
  | returnRoom _ kept => kept.toList
  | claim _ kept => kept.toList
  | awaitSlot _ _ kept => kept.toList
  | fillSlot _ _ kept => kept.toList
  | awaitTurn _ _ kept => kept.toList
  | publish _ _ kept => kept.toList
  | findFront errand => errand.kept
  | checkFront _ errand => errand.kept
  | takeFront _ errand => errand.kept
  | emptySlot _ errand => errand.kept
  | awaitLeave _ a errand => a :: errand.kept
  | leaveSlot _ a errand => a :: errand.kept
  | lowerSize a errand => a :: errand.kept
  | _ => []

/-- The value to be stored by the call, as long as no position is claimed for it. -/
def unclaimed : Point α → List α
  | raiseSize push _ => [push.value]
  | undoRaise push _ => [push.value]
  | construct push _ => [push.value]
  | claim push _ => [push.value]
  | findFront errand => errand.value
  | checkFront _ errand => errand.value
  | takeFront _ errand => errand.value
  | emptySlot _ errand => errand.value
  | awaitLeave _ _ errand => errand.value
  | leaveSlot _ _ errand => errand.value
  | lowerSize _ errand => errand.value
  | _ => []

/-- The position that the call owns. -/
def owned : Point α → List (Nat × α)
  | awaitSlot position push _ => [(position, push.value)]
  | fillSlot position push _ => [(position, push.value)]
  | awaitTurn position push _ => [(position, push.value)]
  | publish position push _ => [(position, push.value)]
  | _ => []

/-- An entry is kept by a push that evicts entries. -/
def Forced : Point α → Prop
  | raiseSize push kept => kept = none ∨ push.policy = .overwrite
  | undoRaise push kept => kept = none ∨ push.policy = .overwrite
  | findFront errand => errand.Forced
  | checkFront _ errand => errand.Forced
  | takeFront _ errand => errand.Forced
  | emptySlot _ errand => errand.Forced
  | awaitLeave _ _ errand => errand.Forced
  | leaveSlot _ _ errand => errand.Forced
  | lowerSize _ errand => errand.Forced
  | _ => True

namespace Leads

variable {r ring : Ring α} {point point' : Point α} {acts : List (Act α)}

theorem pending (h : point.Leads r ring acts point') :
    (emptyingsIn acts).map Prod.fst ++ point'.pending = point.pending ++ extractionsIn acts := by
  cases h with
  | giveUp push kept => cases kept <;> rfl
  | wait => exact (List.append_nil _).symm
  | _ => rfl

theorem handsOut (h : point.Leads r ring acts point') :
    Sublist (poppedIn acts ++ point'.handsOut)
      (point.handsOut ++ (emptyingsIn acts).map Prod.snd) := by
  cases h with
  | giveUp push kept => cases kept <;> exact .slnil
  | wait =>
    rw [emptyingsIn, List.filterMap_nil, List.map_nil, List.append_nil]
    exact .refl _
  | empty position errand a =>
    -- What is evicted is not handed out by a pop.
    cases errand with
    | evict push kept => exact List.nil_sublist _
    | _ => exact .refl _
  | leave position a errand =>
    simp only [emptyingsIn, List.filterMap_cons, List.filterMap_nil, List.map_nil, List.append_nil]
    exact .refl _
  | mayLeave position a errand =>
    simp only [emptyingsIn, List.filterMap_nil, List.map_nil, List.append_nil]
    exact .refl _
  | unpin position clones visit => cases visit <;> exact .slnil
  | _ => exact .refl _

theorem held (h : point.Leads r ring acts point') (forced : point.Forced) :
    (emptyingsIn acts).map Prod.snd ++ point.held =
      poppedIn acts ++ evictedIn acts ++ droppedIn acts ++ point'.held := by
  cases h with
  | giveUp push kept => cases kept <;> rfl
  | publish position push kept => cases kept <;> rfl
  | turnDown push kept reject =>
    -- A push that has evicted an entry is not turned down, or the entry would be lost.
    rcases forced with rfl | overwrite
    · rfl
    · rw [reject] at overwrite
      cases overwrite
  | unpin position clones visit => cases visit <;> rfl
  | _ => rfl

theorem unclaimed (h : point.Leads r ring acts point') :
    Sublist ((claimsIn acts).map Prod.snd ++ point'.unclaimed) point.unclaimed := by
  cases h with
  | giveUp push kept => cases kept <;> exact .slnil
  | turnDown push kept reject => exact List.nil_sublist _
  | breakOff push kept breaks => exact List.nil_sublist _
  | unpin position clones visit => cases visit <;> exact .refl _
  | publish position push kept => cases kept <;> exact .refl _
  | _ => exact .refl _

theorem owned (h : point.Leads r ring acts point') (inside : point' ≠ .idle) :
    point.owned ++ claimsIn acts = point'.owned := by
  cases h with
  | wait => exact List.append_nil _
  | publish | turnDown | giveUp | popNothing | handOut | handOver | unpin | size =>
    exact absurd rfl inside
  | _ => rfl

theorem forced (h : point.Leads r ring acts point') (forced : point.Forced) : point'.Forced := by
  cases h with
  | wait | unread | extract | missTake | empty | mayLeave | leave => exact forced
  | noRoom | again => exact forced
  | evict push kept overwrite => exact overwrite
  | evictNothing position push kept => exact .inr forced
  | keep a push => exact .inr forced
  | drop a push kept => exact .inr forced
  | front position errand => exact forced
  | _ => trivial

/-- Nothing leads on from between two calls. -/
theorem of_idle (h : Leads r .idle ring acts point') : point' = .idle := by
  cases h
  rfl

theorem not_call (h : point.Leads r ring acts point') : ∀ act ∈ acts, act.isCall = false := by
  intro act member
  cases h with
  | giveUp push kept =>
    cases kept <;> simp only [dropActs, List.cons_append, List.nil_append, List.mem_cons,
      List.not_mem_nil, or_false] at member <;> rcases member with rfl | rfl <;> rfl
  | publish position push kept =>
    simp only [List.mem_cons, List.not_mem_nil, or_false] at member
    rcases member with rfl | rfl <;> rfl
  | room | turnDown | claim | popNothing | extract | empty | leave | handOut | handOver | drop |
    unpin | size =>
    rw [List.mem_singleton.mp member]
    rfl
  | _ => cases member

end Leads

end Point

/-! ## The accounts of a run -/

/-- The values that some calls push, in their order. -/
def pushedBy (requests : List (Request α)) : List α :=
  requests.filterMap fun
    | .push push => some push.value
    | _ => none

theorem pushedBy_cons (request : Request α) (todo : List (Request α)) :
    pushedBy (request :: todo) = request.start.unclaimed ++ pushedBy todo := by
  cases request <;> rfl

namespace Reachable

variable {r : Ring α} {calls : List (List (Request α))} {s : System α} {thread : Thread α} {i : Nat}

theorem answersIn_actsOf (reachable : Reachable (System.start r calls) s)
    (found : s.threads[i]? = some thread) : System.answersIn (s.actsOf i) = thread.responses := by
  obtain ⟨_, -, same⟩ := reachable.thread
    (fun _ thread acts => System.answersIn acts = thread.responses) (fun _ => rfl) (by
      intro _ _ _ thread thread' before acts ih turn
      rw [answersIn_append, ih]
      rcases turn.leads with ⟨_, -, -, -, answers, rfl⟩ | ⟨-, answers, -⟩
      · rw [Thread.responses, Thread.responses, answers]
        exact List.append_nil _
      · rw [Thread.responses, Thread.responses, answers, List.reverse_append, List.reverse_reverse])
    found
  exact same

theorem forced (reachable : Reachable (System.start r calls) s)
    (found : s.threads[i]? = some thread) : thread.point.Forced := by
  obtain ⟨_, -, forced⟩ := reachable.thread (fun _ thread _ => thread.point.Forced)
    (fun _ => trivial) (by
      intro _ _ _ thread thread' _ acts ih turn
      rcases turn.leads with ⟨request, -, -, start, -, -⟩ | ⟨-, -, leads⟩
      · rw [start]
        cases request with
        | push push => exact .inl rfl
        | _ => trivial
      · exact leads.forced ih)
    found
  exact forced

/-- Inside a call a thread has claimed the position that it owns, and no other one. -/
theorem claimed_in_call (reachable : Reachable (System.start r calls) s)
    (found : s.threads[i]? = some thread) (inside : thread.point ≠ .idle) :
    claimsIn (sinceCall (s.actsOf i)) = thread.point.owned := by
  obtain ⟨_, -, claimed⟩ := reachable.thread
    (fun _ thread acts => thread.point ≠ .idle → claimsIn (sinceCall acts) = thread.point.owned)
    (fun _ idle => absurd rfl idle) (by
      intro _ _ _ thread thread' before acts ih turn inside
      rcases turn.leads with ⟨request, -, -, start, -, rfl⟩ | ⟨-, -, leads⟩
      · rw [sinceCall_called, start]
        cases request <;> rfl
      · by_cases idle : thread.point = .idle
        · -- Between two calls a turn that takes up none stays there.
          rw [idle] at leads
          exact absurd leads.of_idle inside
        · rw [sinceCall_append before leads.not_call, claimsIn_append, ih idle]
          exact leads.owned inside)
    found
  exact claimed inside

theorem emptied_in_order (reachable : Reachable (System.start r calls) s)
    (found : s.threads[i]? = some thread) :
    Sublist ((emptyingsIn (s.actsOf i)).map Prod.fst) (extractionsIn (s.actsOf i)) := by
  obtain ⟨_, -, flow⟩ := reachable.flow extractionsIn
    (fun acts => (emptyingsIn acts).map Prod.fst) (fun thread => thread.point.pending)
    extractionsIn_append (fun _ _ => by rw [emptyingsIn_append, List.map_append]) (by
      intro _ _ thread thread' acts turn
      rcases turn.leads with ⟨request, idle, -, start, -, rfl⟩ | ⟨-, -, leads⟩
      · rw [idle, start]
        cases request <;> exact .slnil
      · exact leads.pending ▸ .refl _)
    found
  exact (List.sublist_append_left _ _).trans flow

theorem popped_in_order (reachable : Reachable (System.start r calls) s)
    (found : s.threads[i]? = some thread) :
    Sublist (poppedIn (s.actsOf i)) ((emptyingsIn (s.actsOf i)).map Prod.snd) := by
  obtain ⟨_, -, flow⟩ := reachable.flow (fun acts => (emptyingsIn acts).map Prod.snd)
    poppedIn (fun thread => thread.point.handsOut)
    (fun _ _ => by rw [emptyingsIn_append, List.map_append]) poppedIn_append (by
      intro _ _ thread thread' acts turn
      rcases turn.leads with ⟨request, idle, -, start, -, rfl⟩ | ⟨-, -, leads⟩
      · rw [idle, start]
        cases request <;> exact .slnil
      · exact leads.handsOut)
    found
  exact (List.sublist_append_left _ _).trans flow

theorem claimed_in_order (reachable : Reachable (System.start r calls) s)
    (found : s.threads[i]? = some thread) : ∃ requests, calls[i]? = some requests ∧
      Sublist ((claimsIn (s.actsOf i)).map Prod.snd) (pushedBy requests) := by
  obtain ⟨requests, called, flow⟩ := reachable.flow (fun _ => [])
    (fun acts => (claimsIn acts).map Prod.snd)
    (fun thread => thread.point.unclaimed ++ pushedBy thread.todo)
    (fun _ _ => rfl) (fun _ _ => by rw [claimsIn_append, List.map_append]) (by
      intro _ _ thread thread' acts turn
      rw [List.append_nil]
      rcases turn.leads with ⟨request, idle, todo, start, -, rfl⟩ | ⟨todo, -, leads⟩
      · rw [idle, todo, start, pushedBy_cons]
        exact .refl _
      · rw [todo, ← List.append_assoc]
        exact leads.unclaimed.append_right _)
    found
  rw [List.append_nil] at flow
  exact ⟨requests, called, (List.sublist_append_left _ _).trans flow⟩

/-- The positions extracted have been emptied, or are about to be. -/
theorem pending_balance (reachable : Reachable (System.start r calls) s) :
    (extractionsIn s.acts : Multiset Nat) = ((emptyingsIn s.acts).map Prod.fst : List Nat) +
      tally (fun thread => (thread.point.pending : Multiset Nat)) s.threads := by
  apply reachable.balance (fun acts => (extractionsIn acts : Multiset Nat))
    (fun acts => ((emptyingsIn acts).map Prod.fst : Multiset Nat))
  · intro first second
    rw [extractionsIn_append, Multiset.coe_add]
  · intro first second
    rw [emptyingsIn_append, List.map_append, Multiset.coe_add]
  · intro _
    rfl
  · intro t i thread ring thread' acts _ _ turn
    rcases turn.leads with ⟨request, idle, -, start, -, rfl⟩ | ⟨-, -, leads⟩
    · rw [idle, start]
      cases request <;> rfl
    · rw [Multiset.coe_add, Multiset.coe_add, leads.pending]
      exact Multiset.coe_eq_coe.mpr List.perm_append_comm

/-- The entries taken out of their slots were popped, evicted or dropped, or a thread has them. -/
theorem held_balance (reachable : Reachable (System.start r calls) s) :
    ((emptyingsIn s.acts).map Prod.snd : Multiset α) =
      (poppedIn s.acts ++ evictedIn s.acts ++ droppedIn s.acts : List α) +
      tally (fun thread => (thread.point.held : Multiset α)) s.threads := by
  apply reachable.balance (fun acts => ((emptyingsIn acts).map Prod.snd : Multiset α))
    (fun acts => (poppedIn acts ++ evictedIn acts ++ droppedIn acts : List α))
  · intro first second
    rw [emptyingsIn_append, List.map_append, Multiset.coe_add]
  · intro first second
    rw [poppedIn_append, evictedIn_append, droppedIn_append]
    simp only [← Multiset.coe_add]
    abel
  · intro _
    rfl
  · intro t i thread ring thread' acts before found turn
    rcases turn.leads with ⟨request, idle, -, start, -, rfl⟩ | ⟨-, -, leads⟩
    · rw [idle, start]
      cases request <;> rfl
    · rw [Multiset.coe_add, Multiset.coe_add, leads.held (before.forced found)]

end Reachable

end RingQueue.Protocol
