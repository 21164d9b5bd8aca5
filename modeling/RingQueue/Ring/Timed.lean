import RingQueue.Ring.Access

/-!
Waiting with a deadline: a call attempts its work again and again, until an attempt succeeds or the
clock, looked at after a failed attempt, is past the deadline.

What happens around the attempts is given from outside, as one interlude for each failed attempt.
-/
namespace RingQueue

/-- What happens after a failed attempt: what the clock shows, and what other handles do to the ring
before the next attempt. -/
structure Interlude (α : Type) where
  clock : Nat
  change : Ring α → Ring α

/-- Until when a call waits; without a deadline it never gives up. -/
abbrev Deadline := Option Nat

def Deadline.isPast (deadline : Deadline) (clock : Nat) : Bool :=
  match deadline with
  | none => false
  | some time => time < clock

/-- How many milliseconds a call waits; without a number it never gives up. -/
abbrev Timeout := Option Nat

/-- The clock, which belongs to the machine. -/
structure Clock where
  -- What it shows so many milliseconds after a time, if it can show that at all.
  after : Nat → Nat → Option Nat

/-- A clock that counts on for ever, in nanoseconds. -/
def Clock.endless : Clock := ⟨fun now milliseconds => some (now + milliseconds * 1000000)⟩

/-- The time until which a call waits that begins when the clock shows `now`. -/
def Timeout.deadline (clock : Clock) (timeout : Timeout) (now : Nat) : Except Fault Deadline :=
  match timeout with
  | none => .ok none
  | some milliseconds =>
    match clock.after now milliseconds with
    | some time => .ok (some time)
    | none => .error .deadlineOverflow

namespace Ring

variable {α : Type}

/-- Pushes an entry within a deadline; after it, the entry is given back. When the interludes are
over before the call is, it still waits. -/
def pushBackUntil (deadline : Deadline) (a : α) :
    List (Interlude α) → Ring α → Call α (Except α Unit)
  | interludes, r =>
    match r.tryAdmission with
    | some admitted =>
      match admitted.publish a with
      | some r => .returned (.ok ()) r []
      | none => .waiting admitted
    | none =>
      match interludes with
      | [] => .waiting r
      | now :: later =>
        if deadline.isPast now.clock then
          .returned (.error a) r [.reported (.pushTimedOut r.capacity)]
        else pushBackUntil deadline a later (now.change r)

/-- Extracts the oldest entry, waiting for one within a deadline. When the interludes are over
before the call is, it still waits. -/
def popFrontUntil (deadline : Deadline) :
    List (Interlude α) → Ring α → Call α (Option α)
  | interludes, r =>
    match r.takeFront with
    | none => .waiting r
    | some (some a, r) => .returned (some a) r []
    | some (none, r) =>
      match interludes with
      | [] => .waiting r
      | now :: later =>
        if deadline.isPast now.clock then
          .returned none r [.reported (.popTimedOut r.capacity)]
        else popFrontUntil deadline later (now.change r)

/-- Nothing changes but the time, which is past any deadline. -/
def undisturbed (deadline : Deadline) : List (Interlude α) :=
  match deadline with
  | none => []
  | some time => [⟨time + 1, id⟩]

/-- Pushes an entry within a timeout while nothing else happens. When there is no such deadline, the
entry is dropped without an attempt. -/
def pushBackWithin (clock : Clock) (timeout : Timeout) (a : α)
    (r : Ring α) : Call α (Except α Unit) :=
  match timeout.deadline clock 0 with
  | .error fault => ⟨.aborted fault, r, Effect.drop? (some a)⟩
  | .ok deadline => pushBackUntil deadline a (undisturbed deadline) r

/-- Extracts the oldest entry within a timeout while nothing else happens. When there is no such
deadline, nothing is attempted. -/
def popFrontWithin (clock : Clock) (timeout : Timeout) (r : Ring α) : Call α (Option α) :=
  match timeout.deadline clock 0 with
  | .error fault => ⟨.aborted fault, r, []⟩
  | .ok deadline => popFrontUntil deadline (undisturbed deadline) r

end Ring

end RingQueue
