import Mathlib.Algebra.Order.Group.Multiset
import Mathlib.Tactic.Abel
import RingQueue.Session.Run

/-!
What the steps of a session are given and what they hand out, read off the steps and their answers.

A `Ledger` sums up any number of steps: the values that callers moved into operations or had
constructors make, the clones, the values that callers got, and those that were dropped.
-/
namespace RingQueue.Session

variable {α : Type}

/-! ## Single operations -/

/-- The values in a result that belong to the caller from then on. -/
def ExclusiveResult.handed : ExclusiveResult α → List α
  | .done => []
  | .entry a => a.toList
  | .tried (.error value) => [value]
  | .tried (.ok ()) => []

def Result.handed : Result α → List α
  | .tried (.error value) => [value]
  | .evicted a => a.toList
  | .entry a => a.toList
  | .entries as => as
  | .read (.ok a) => [a]
  | .popList popped => popped.flatMap Option.toList
  | .readList results => results.flatMap fun result => result.toOption.toList
  | .exclusive (some result) => result.handed
  | _ => []

/-- Whether an operation was not made at all, because the handle does not offer it or another handle
was in the way. -/
def Result.isRefused : Result α → Bool
  | .unavailable => true
  | .exclusive none => true
  | _ => false

/-- Whether the caller acts alone. A hand-over between threads is left out. -/
def Action.isSequential : Action α → Bool
  | .pushFromThread _ _ _ => false
  | _ => true

/-- The values that an operation takes over, if it is made. -/
def Action.values : Action α → List α
  | .push _ value => [value]
  | .pushWithin _ value => [value]
  | .pushFromThread _ values _ => values
  | .exclusive (.tryPushBack value) => [value]
  | .exclusive (.forcePushBack value) => [value]
  | _ => []

def Action.given (action : Action α) (result : Result α) : List α :=
  if result.isRefused then [] else action.values

theorem Action.given_eq_nil {action : Action α} (none_taken : action.values = [])
    (result : Result α) :
    action.given result = [] := by
  simp [given, none_taken]

/-- The values that an operation hands out to a handle of this role. An owner, and whoever is by
itself, is shown the front in its place; a consumer gets a clone. -/
def Action.handed (role : Option Role) (action : Action α) (result : Result α) : List α :=
  match action, role with
  | .front, some .owner => []
  | .exclusive .front, _ => []
  | _, _ => result.handed

/-- The role of the handle of a name, if there is one. -/
def role? (s : Session α) (name : String) : Option Role :=
  (s.find? (.name name)).map fun found => found.2.role

def Creation.values : Creation α → List α
  | .queue (.filled _ value) => [value]
  | _ => []

/-! ## Sums -/

/-- What came into queues and what left them. -/
structure Ledger (α : Type) where
  given : Multiset α
  cloned : Multiset α
  handed : Multiset α
  dropped : Multiset α

namespace Ledger

instance : Zero (Ledger α) := ⟨⟨0, 0, 0, 0⟩⟩

instance : Add (Ledger α) :=
  ⟨fun a b => ⟨a.given + b.given, a.cloned + b.cloned, a.handed + b.handed, a.dropped + b.dropped⟩⟩

/-- The ledger of one operation. -/
def single (given handed : List α) (effects : List (Effect α)) : Ledger α :=
  ⟨given, Effect.clones effects, handed, Effect.drops effects⟩

/-- What there was and what came is there or has left. -/
def Balances (l : Ledger α) (before after : Multiset α) : Prop :=
  before + l.given + l.cloned = after + l.handed + l.dropped

theorem Balances.zero (contents : Multiset α) : (0 : Ledger α).Balances contents contents := rfl

theorem Balances.add {l m : Ledger α} {before between after : Multiset α}
    (first : l.Balances before between) (second : m.Balances between after) :
    (l + m).Balances before after := by
  unfold Balances at first second ⊢
  calc
    before + (l.given + m.given) + (l.cloned + m.cloned)
      = before + l.given + l.cloned + (m.given + m.cloned) := by abel
    _ = between + m.given + m.cloned + (l.handed + l.dropped) := by rw [first]; abel
    _ = after + (l.handed + m.handed) + (l.dropped + m.dropped) := by rw [second]; abel

end Ledger

mutual

/-- What a step in a session comes to by its answer, with all that its constructor did. A
constructor that was not run has made nothing. -/
def Step.ledger (setup : Setup α) : Step α → Session α → Answer α → Ledger α
  | .create _ creation, _, answer => .single creation.values [] answer.report.effects
  | .act name action, s, answer =>
    .single (action.given answer.report.result) (action.handed (s.role? name) answer.report.result)
      answer.report.effects
  | .emplace _ _ _ _, _, .plain _ => 0
  | .emplace _ _ _ _, _, .emplaced report none => .single [] report.result.handed report.effects
  | .emplace name terms during made, s, .emplaced report (some answers) =>
    Step.ledgers setup during (s.beginEmplace name terms).session answers +
      .single made.toOption.toList report.result.handed report.effects

/-- What steps come to, as far as there are answers. -/
def Step.ledgers (setup : Setup α) : List (Step α) → Session α → List (Answer α) → Ledger α
  | step :: steps, s, answer :: answers =>
    step.ledger setup s answer + Step.ledgers setup steps (Step.run setup step s).1 answers
  | _, _, _ => 0

end

end RingQueue.Session
