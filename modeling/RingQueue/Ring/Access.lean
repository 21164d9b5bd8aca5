import RingQueue.Policy
import RingQueue.Ring.Call

/-!
Calls that any number of handles may make on a ring at the same time: pushes of all kinds, pops, and
looking at the front.

A push asks for room, makes its entry and publishes it. The policy says what happens when the ring
is full: the request is denied, waits, or evicts the oldest unread entry.
-/
namespace RingQueue

/-- The answer to a request for room. -/
inductive Room (α : Type) where
  | denied
  -- There is room, for which an entry may have been evicted.
  | granted (evicted : Option α)
  deriving Repr

/-- What became of a push. -/
inductive Pushed (α : Type) where
  | denied
  | stored (evicted : Option α)
  deriving Repr

namespace Ring

variable {α β : Type}

/-! ## Requests for room -/

/-- Evicts until there is room. The first entry evicted is kept, later ones are dropped. Each turn
takes an entry away, so that as many turns as there are unread entries, and one more, suffice; then
all slots belong to entries that are still being made, and the call waits for one of them. -/
def evictUntilRoom : Nat → Option α → Ring α → Call α (Room α)
  | 0, _, r => .waiting r
  | turns + 1, kept, r =>
    match r.tryAdmission with
    | some r => .returned (.granted kept) r []
    | none =>
      match r.takeFront with
      | some (some victim, r) =>
        let log := [.reported (.evicted r.capacity)]
        match kept with
        | none => (evictUntilRoom turns (some victim) r).after log
        | some kept =>
          (evictUntilRoom turns (some kept) r).after (log ++ [.dropped (.single victim)])
      -- No entry is left to evict, or another caller holds the front.
      | _ => .waiting r

def request (policy : OverflowPolicy) (r : Ring α) : Call α (Room α) :=
  match policy with
  | .overwrite => evictUntilRoom (r.unreadCount + 1) none r
  | .reject =>
    match r.tryAdmission with
    | some r => .returned (.granted none) r []
    | none => .returned .denied r []
  | .block =>
    match r.tryAdmission with
    | some r => .returned (.granted none) r []
    | none => ⟨.waiting, r, [.reported (.spinning r.capacity)]⟩

/-- Uses the room that was granted: publishes the entry, or gives the room back when there is none,
in which case the entry evicted for it is lost. That this entry breaks off as well, which would end
the program, is left out. -/
def settle (evicted : Option α) (made : Except Fault α) (r : Ring α) : Call α (Pushed α) :=
  match made with
  | .ok a =>
    match r.publish a with
    | some r => .returned (.stored evicted) r []
    | none => .waiting r
  | .error fault =>
    ⟨.aborted fault, r.returnAdmission, Effect.drop? evicted⟩

/-! ## Pushes -/

/-- Pushes what a constructor makes once there is room for it. The constructor is not run when the
request is denied. -/
def emplace (policy : OverflowPolicy) (make : Unit → Except Fault α) (r : Ring α) :
    Call α (Pushed α) :=
  (r.request policy).andThen fun room r =>
    match room with
    | .denied => .returned .denied r []
    | .granted evicted => r.settle evicted (make ())

def push (policy : OverflowPolicy) (a : α) (r : Ring α) : Call α (Pushed α) :=
  r.emplace policy fun _ => .ok a

/-- Pushes an entry; a full ring makes the call wait. -/
def pushBack (a : α) (r : Ring α) : Call α Unit := (r.push .block a).map fun _ => ()

/-- Pushes an entry; a full ring gives it back. -/
def tryPushBack (a : α) (r : Ring α) : Call α (Except α Unit) :=
  (r.push .reject a).map fun
    | .denied => .error a
    | .stored _ => .ok ()

/-- Pushes an entry; a full ring hands out its oldest unread entry. -/
def forcePushBack (a : α) (r : Ring α) : Call α (Option α) :=
  (r.push .overwrite a).map fun
    | .denied => none
    | .stored evicted => evicted

/-! ## Pops -/

def popFront (r : Ring α) : Call α (Option α) :=
  match r.takeFront with
  | some (a, r) => .returned a r []
  | none => .waiting r

/-- Extracts entries, oldest first, until `limit` of them are out or none is left; `done` holds
those that are out already, the last one first. -/
def popMany (done : List α) : Nat → Ring α → Call α (List α)
  | 0, r => .returned done.reverse r []
  | limit + 1, r =>
    match r.takeFront with
    | none => .waiting r
    | some (none, r) => .returned done.reverse r []
    | some (some a, r) => popMany (a :: done) limit r

/-- Extracts entries, oldest first: all, or at most as many as said. -/
def drain (limit : Option Nat) (r : Ring α) : Call α (List α) :=
  popMany [] (limit.getD r.unreadCount) r

/-! ## Looking at the front -/

/-- Applies a function to the oldest entry while the front is pinned; however that ends, the pin is
taken back. -/
def peek (look : α → Except Fault β) (r : Ring α) : Call α (Option β) :=
  match r.pin with
  | none => .waiting r
  | some (position, held) =>
    -- The front is pinned also when nothing stands there.
    if held.visible ≤ position then .returned none (held.unpin position) []
    else
      match held.entry position with
      | none => .returned none (held.unpin position) []
      | some a =>
        match look a with
        | .ok b => .returned (some b) (held.unpin position) []
        | .error fault => ⟨.aborted fault, held.unpin position, []⟩

def peekClone (cloning : Cloning α) (r : Ring α) : Call α (Option α) :=
  (r.peek (cloning.copy 0)).andThen fun copy r =>
    match copy with
    | none => .returned none r []
    | some copy => .returned (some copy) r [.cloned (.single copy)]

end Ring

end RingQueue
