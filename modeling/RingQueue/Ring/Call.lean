import RingQueue.Effect
import RingQueue.Entry
import RingQueue.Ring.Basic

/-!
Calls on a ring: how they end, the ring that they leave behind and what they do on the side.
-/
namespace RingQueue

/-- A call that was made. The ring is the one that it leaves however it ended. -/
structure Call (α β : Type) where
  outcome : Outcome β
  ring : Ring α
  effects : List (Effect α)

namespace Call

variable {α β γ : Type}

def returned (value : β) (ring : Ring α) (effects : List (Effect α)) : Call α β :=
  ⟨.returned value, ring, effects⟩

def waiting (ring : Ring α) : Call α β := ⟨.waiting, ring, []⟩

def map (f : β → γ) (c : Call α β) : Call α γ := ⟨c.outcome.map f, c.ring, c.effects⟩

/-- Goes on with the result of a call that returned. -/
def andThen (c : Call α β) (next : β → Ring α → Call α γ) : Call α γ :=
  match c.outcome with
  | .returned value =>
    let rest := next value c.ring
    ⟨rest.outcome, rest.ring, c.effects ++ rest.effects⟩
  | .aborted fault => ⟨.aborted fault, c.ring, c.effects⟩
  | .waiting => ⟨.waiting, c.ring, c.effects⟩

/-- The same call with something done before it. -/
def after (effects : List (Effect α)) (c : Call α β) : Call α β :=
  ⟨c.outcome, c.ring, effects ++ c.effects⟩

@[simp] theorem andThen_returned (value : β) (ring : Ring α) (effects : List (Effect α))
    (next : β → Ring α → Call α γ) :
    (returned value ring effects).andThen next = (next value ring).after effects := rfl

@[simp] theorem after_nil (c : Call α β) : c.after [] = c := rfl

end Call

/-- Something new, or why there is none, and what was done on the side. -/
structure Built (α β : Type) where
  result : Except Fault β
  effects : List (Effect α)

def Built.map {α β γ : Type} (f : β → γ) (b : Built α β) : Built α γ := ⟨b.result.map f, b.effects⟩

end RingQueue
