import RingQueue.Proofs.Session.Accounts

/-!
What the handles of a split queue do, as the owner of the unsplit queue does it.

`Echo` relates what is asked of a handle, with its result and all that is done on the side, to what
is asked of the owner of the same ring; a handle that offers something of its own, such as waiting
with a deadline, adds only what the relation says. `Exchanges` lets the owner ask one thing after
the other. For each call through a handle the owner comes to the same ring (`Asks.echo`).
-/
namespace RingQueue

variable {α β : Type}

/-! ## Waiting with a deadline -/

namespace Ring

variable {r : Ring α} {clock : Clock} {timeout : Timeout} {until? : Deadline}

/-- A push within a deadline is an attempt that reports when it gives up. -/
theorem pushBackWithin_eq (timely : timeout.deadline clock 0 = .ok until?) (a : α)
    (finished : (r.pushBackWithin clock timeout a).outcome ≠ .waiting) :
    let once := r.tryPushBack a
    r.pushBackWithin clock timeout a = ⟨once.outcome, once.ring,
      once.effects ++ match once.outcome with
        | .returned (.error _) => [.reported (.pushTimedOut r.capacity)]
        | _ => []⟩ := by
  simp only [pushBackWithin, timely] at finished ⊢
  unfold pushBackUntil at finished ⊢
  simp only [tryPushBack, push, emplace, request, settle]
  cases admission : r.tryAdmission with
  | none =>
    cases until? with
    | none => simp [admission, undisturbed, Call.waiting] at finished
    | some time =>
      have past : Deadline.isPast (some time) (time + 1) = true := by simp [Deadline.isPast]
      simp only [undisturbed, past, if_true]
      rfl
  | some admitted =>
    simp only [admission] at finished ⊢
    cases published : admitted.publish a with
    | none => simp [published, Call.waiting] at finished
    | some r' => simp [published, Call.map, Outcome.map, Call.returned, Call.andThen]

/-- A pop within a deadline is an attempt that reports when it gives up. -/
theorem popFrontWithin_eq (timely : timeout.deadline clock 0 = .ok until?)
    (finished : (r.popFrontWithin clock timeout).outcome ≠ .waiting) :
    let once := r.popFront
    r.popFrontWithin clock timeout = ⟨once.outcome, once.ring,
      once.effects ++ match once.outcome with
        | .returned none => [.reported (.popTimedOut r.capacity)]
        | _ => []⟩ := by
  simp only [popFrontWithin, timely] at finished ⊢
  unfold popFrontUntil at finished ⊢
  simp only [popFront]
  cases taken : r.takeFront with
  | none => simp [taken, Call.waiting] at finished
  | some front =>
    obtain ⟨entry, r'⟩ := front
    simp only [taken] at finished ⊢
    cases entry with
    | some a => rfl
    | none =>
      have same : r'.capacity = r.capacity := by
        unfold takeFront at taken
        grind
      cases until? with
      | none => simp [undisturbed, Call.waiting] at finished
      | some time =>
        have past : Deadline.isPast (some time) (time + 1) = true := by simp [Deadline.isPast]
        simp only [undisturbed, past, if_true, same]
        rfl

/-- A push that waits forever has no deadline, and an attempt is turned down, or waits itself. -/
theorem pushBackWithin_waiting (a : α)
    (waits : (r.pushBackWithin clock timeout a).outcome = .waiting) :
    (r.tryPushBack a).outcome = .waiting ∨
      timeout.deadline clock 0 = .ok none ∧ (r.tryPushBack a).outcome = .returned (.error a) := by
  unfold pushBackWithin at waits
  cases timely : timeout.deadline clock 0 with
  | error fault => simp [timely] at waits
  | ok until? =>
    simp only [timely] at waits
    unfold pushBackUntil at waits
    simp only [tryPushBack, push, emplace, request, settle]
    cases admission : r.tryAdmission with
    | none =>
      cases until? with
      | none => exact .inr ⟨rfl, rfl⟩
      | some time =>
        have past : Deadline.isPast (some time) (time + 1) = true := by simp [Deadline.isPast]
        simp [admission, undisturbed, past, Call.returned] at waits
    | some admitted =>
      simp only [admission] at waits
      cases published : admitted.publish a with
      | none =>
        left
        simp [published, Call.andThen, Call.map, Call.waiting, Call.returned, Outcome.map]
      | some r' => simp [published, Call.returned] at waits

/-- A pop that waits forever has no deadline, and an attempt finds nothing, or waits itself. -/
theorem popFrontWithin_waiting (waits : (r.popFrontWithin clock timeout).outcome = .waiting) :
    r.popFront.outcome = .waiting ∨ timeout.deadline clock 0 = .ok none ∧ r.popFront.outcome =
      .returned none := by
  unfold popFrontWithin at waits
  cases timely : timeout.deadline clock 0 with
  | error fault => simp [timely] at waits
  | ok until? =>
    simp only [timely] at waits
    unfold popFrontUntil at waits
    simp only [popFront]
    cases taken : r.takeFront with
    | none => exact .inl rfl
    | some front =>
      obtain ⟨entry, r'⟩ := front
      simp only [taken] at waits
      cases entry with
      | some a => simp [Call.returned] at waits
      | none =>
        cases until? with
        | none => exact .inr ⟨rfl, rfl⟩
        | some time =>
          have past : Deadline.isPast (some time) (time + 1) = true := by simp [Deadline.isPast]
          simp [undisturbed, past, Call.returned] at waits

end Ring

namespace Session

/-! ## Exchanges -/

/-- What was asked of a handle, what it answered, and what was done on the side. -/
structure Exchange (α : Type) where
  action : Action α
  result : Result α
  effects : List (Effect α)

/-- What the owner is asked instead of a caller whom no other handle disturbs. -/
def Exclusive.asOwner : Exclusive α → Action α
  | reserve capacity => .reserve capacity
  | clear => .clear
  | popFront => .popFront
  | front => .front
  | tryPushBack value => .push (.asked .reject) value
  | forcePushBack value => .push (.asked .overwrite) value

/-- How the owner puts the answer of such a caller. -/
def Exclusive.answer : Exclusive α → ExclusiveResult α → Result α
  | _, .done => .done
  | _, .tried result => .tried result
  | .forcePushBack _, .entry entry => .evicted entry
  | _, .entry entry => .entry entry

theorem Exclusive.answer_ne_waiting (operation : Exclusive α) (answer : ExclusiveResult α) :
    operation.answer answer ≠ .waiting := by
  cases operation <;> cases answer <;> nofun

/-- Actions that the owner of the queue is asked in the same words. -/
def Action.isShared : Action α → Bool
  | .push _ _ => true
  | .popFront => true
  | .read => true
  | .drain _ => true
  | .policy => true
  | _ => false

/-- The attempt that an action within a deadline makes, and what it reports when it gives up. -/
def Action.untimed? (capacity : Nat) : Action α → Option (Timeout × Action α × Event)
  | .pushWithin timeout value =>
    some (timeout, .push (.asked .reject) value, .pushTimedOut capacity)
  | .popWithin timeout => some (timeout, .popFront, .popTimedOut capacity)
  | .readWithin timeout => some (timeout, .read, .popTimedOut capacity)
  | _ => none

/-- An entry that is read by the owner. -/
def Exchange.reading (a : α) : Exchange α := ⟨.read, .read (.ok a), []⟩

/-- What is asked of a handle of a channel, and what the owner of the unsplit queue is asked for the
same. -/
inductive Echo (setup : Setup α) (c : Channel α) (role : Role) : Exchange α → List (Exchange α) →
    Prop where
  | same {action : Action α} {result : Result α} {effects : List (Effect α)}
      (shared : action.isShared = true) :
      Echo setup c role ⟨action, result, effects⟩ [⟨action, result, effects⟩]
  -- An attempt within a deadline tells when it gives up.
  | timely {action once : Action α} {timeout : Timeout} {event : Event} {until? : Deadline}
      {result : Result α} {effects : List (Effect α)}
      (untimed : action.untimed? c.ring.capacity = some (timeout, once, event))
      (timely : timeout.deadline setup.clock 0 = .ok until?) :
      Echo setup c role
        ⟨action, result, effects ++ if action.timesOut result then [.reported event] else []⟩
        [⟨once, result, effects⟩]
  -- There is no such deadline, so that no attempt is made.
  | untimely {action once : Action α} {timeout : Timeout} {event : Event} {fault : Fault}
      (untimed : action.untimed? c.ring.capacity = some (timeout, once, event))
      (late : timeout.deadline setup.clock 0 = .error fault) :
      Echo setup c role ⟨action, .aborted fault, action.values.map fun a => .dropped (.single a)⟩ []
  -- The owner borrows the front, others get a clone of it.
  | noFront : Echo setup c role ⟨.front, .entry none, []⟩ [⟨.front, .entry none, []⟩]
  | front {a copy : α} (cloned : setup.kind.cloning.copy 0 a = .ok copy) :
      Echo setup c role ⟨.front, .entry (some copy), [.cloned (.single copy)]⟩
        [⟨.front, .entry (some a), []⟩]
  | frontFailed {a : α} {fault : Fault} (failed : setup.kind.cloning.copy 0 a = .error fault) :
      Echo setup c role ⟨.front, .aborted fault, []⟩ [⟨.front, .entry (some a), []⟩]
  -- The owner of a queue with a policy reads one entry after the other, until none is left or
  -- enough are out.
  | drained {limit : Option Nat} {entries : List α}
      (within : ∀ n, limit = some n → entries.length ≤ n) :
      Echo setup c role ⟨.drain limit, .entries entries, []⟩
        (entries.map Exchange.reading ++
          if limit = some entries.length then [] else [⟨.read, .read (.error .queueIsEmpty), []⟩])
  -- The last handle may do what the owner may.
  | exclusive {operation : Exclusive α} {answer : ExclusiveResult α} {effects : List (Effect α)}
      (sole : c.isSole = true) :
      Echo setup c role ⟨.exclusive operation, .exclusive (some answer), effects⟩
        [⟨operation.asOwner, operation.answer answer, effects⟩]
  | exclusiveFailed {operation : Exclusive α} {fault : Fault} {effects : List (Effect α)}
      (sole : c.isSole = true) :
      Echo setup c role ⟨.exclusive operation, .aborted fault, effects⟩
        [⟨operation.asOwner, .aborted fault, effects⟩]
  -- Another handle is in the way.
  | denied {operation : Exclusive α} (shared : c.isSole = false) :
      Echo setup c role ⟨.exclusive operation, .exclusive none, []⟩ []
  | unoffered {action : Action α} (unoffered : action.isOffered role c.policy.isSome = false) :
      Echo setup c role ⟨action, .unavailable, []⟩ []
  -- What a handle shows is the state of its channel.
  | observed : Echo setup c role ⟨.observe, .nothing, []⟩ []
  | described (onLines : Bool) :
      Echo setup c role ⟨.describe onLines, .text ((c.record role).describe onLines), []⟩ []

/-- What the owner of a queue is asked, one thing after the other, and the ring before and after it.
No push keeps the handle of an owner that is free. -/
inductive Exchanges (setup : Setup α) (policy : Option Policy) (free : Prop) :
    Ring α → List (Exchange α) → Ring α → Prop where
  | nil (r : Ring α) : Exchanges setup policy free r [] r
  | call {r r' : Ring α} {action : Action α} {made : Call α (Result α)} {later : List (Exchange α)}
      (offered : action.isOffered .owner policy.isSome = true)
      (alone : action.needsAll = true → free)
      (call : action.call? setup ⟨r, policy, []⟩ .owner = some made)
      (finished : resultOfCall made ≠ .waiting)
      (rest : Exchanges setup policy free made.ring later r') :
      Exchanges setup policy free r (⟨action, resultOfCall made, made.effects⟩ :: later) r'
  | front {r r' : Ring α} {later : List (Exchange α)} (plain : policy = none)
      (rest : Exchanges setup policy free r later r') :
      Exchanges setup policy free r (⟨.front, .entry r.front?, []⟩ :: later) r'
  | policy {r r' : Ring α} {chosen : Policy} {later : List (Exchange α)}
      (present : policy = some chosen) (rest : Exchanges setup policy free r later r') :
      Exchanges setup policy free r (⟨.policy, .policy chosen, []⟩ :: later) r'

namespace Exchanges

variable {setup : Setup α} {policy : Option Policy} {free : Prop} {r r' r'' : Ring α}
  {action : Action α} {xs ys : List (Exchange α)}

theorem append (first : Exchanges setup policy free r xs r')
    (second : Exchanges setup policy free r' ys r'') :
    Exchanges setup policy free r (xs ++ ys) r'' := by
  induction first with
  | nil => exact second
  | call offered alone call finished rest ih => exact .call offered alone call finished (ih second)
  | front plain rest ih => exact .front plain (ih second)
  | policy present rest ih => exact .policy present (ih second)

/-- A single call. -/
theorem one {made : Call α (Result α)} (offered : action.isOffered .owner policy.isSome = true)
    (alone : action.needsAll = true → free)
    (call : action.call? setup ⟨r, policy, []⟩ .owner = some made)
    (finished : resultOfCall made ≠ .waiting) :
    Exchanges setup policy free r [⟨action, resultOfCall made, made.effects⟩] made.ring :=
  .call offered alone call finished (.nil _)

end Exchanges

/-- Why an action waits, by what the owner answers. -/
inductive Action.WaitsFor (clock : Clock) (answer : Action α → Result α) : Action α → Prop where
  | owner {action : Action α} (waits : answer action = .waiting) : WaitsFor clock answer action
  | exclusive {operation : Exclusive α} (waits : answer operation.asOwner = .waiting) :
      WaitsFor clock answer (.exclusive operation)
  -- There is no deadline, and an attempt comes to nothing.
  | untimed (capacity : Nat) {action once : Action α} {timeout : Timeout} {event : Event}
      (untimed : action.untimed? capacity = some (timeout, once, event))
      (waits : answer once = .waiting ∨ timeout.deadline clock 0 = .ok none ∧
        action.timesOut (answer once) = true) :
      WaitsFor clock answer action

/-! ## Calls and their echoes -/

section Reads

variable {setup : Setup α} {chosen : Policy} {free : Prop} {r : Ring α} {capacity reserved : Nat}
  {entries : List α}

/-- Many pops are as many reads. -/
theorem popMany_reads (setup : Setup α) (chosen : Policy) (free : Prop)
    (h : r.Holds capacity entries reserved) (limit : Nat) (done : List α) :
    ∃ r', Ring.popMany done limit r = .returned (done.reverse ++ entries.take limit) r' [] ∧
      r'.Holds capacity (entries.drop limit) reserved ∧
      Exchanges setup (some chosen) free r ((entries.take limit).map Exchange.reading) r' := by
  induction limit generalizing r entries done with
  | zero => exact ⟨r, by simp [Ring.popMany], h, .nil r⟩
  | succ limit ih =>
    cases entries with
    | nil =>
      refine ⟨r, ?_, h, .nil r⟩
      simp only [Ring.popMany, h.takeFront_nil, List.take_nil, List.append_nil]
    | cons a rest =>
      obtain ⟨between, taken, holds⟩ := h.takeFront_cons
      obtain ⟨r', popped, restHolds, reads⟩ := ih holds (a :: done)
      have read : Action.read.call? setup ⟨r, some chosen, []⟩ .owner =
        some (.returned (.read (.ok a)) between []) := by
        simp only [Action.call?, Ring.read?, Ring.popFront, taken]
        rfl
      refine ⟨r', ?_, restHolds, .call rfl (by rintro ⟨⟩) read (by rintro ⟨⟩) reads⟩
      simp only [Ring.popMany, taken, popped, List.reverse_cons, List.append_assoc,
        List.singleton_append, List.take_succ_cons]

end Reads

section Calls

variable {setup : Setup α} {c : Channel α} {role : Role} {action : Action α} {free : Prop}
  {made : Call α (Result α)} {limit reserved : Nat} {entries : List α}

/-- A call that waits was not to be presented. -/
theorem outcome_eq_waiting {made : Call α β} {present : β → Result α}
    (waits : resultOfCall (made.map present) = .waiting)
    (shown : ∀ value, present value ≠ .waiting) :
    made.outcome = .waiting := by
  obtain ⟨outcome, ring, effects⟩ := made
  cases outcome with
  | returned value => exact absurd waits (shown value)
  | aborted fault => cases waits
  | waiting => rfl

/-! ### Deadlines -/

/-- An action within a deadline is an attempt, unless there is no such deadline, and reports when it
gives up. Without a deadline it may wait for an attempt that comes to nothing. -/
structure Within (clock : Clock) (r : Ring α) (action : Action α) (timeout : Timeout)
    (event : Event) (made attempt : Call α (Result α)) : Prop where
  late : ∀ fault, timeout.deadline clock 0 = .error fault →
    made = ⟨.aborted fault, r, action.values.map fun a => .dropped (.single a)⟩
  timely : ∀ until?, timeout.deadline clock 0 = .ok until? → resultOfCall made ≠ .waiting →
    made = ⟨attempt.outcome, attempt.ring,
      attempt.effects ++ if action.timesOut (resultOfCall attempt) then [.reported event] else []⟩
  waits : resultOfCall made = .waiting → resultOfCall attempt = .waiting ∨
    timeout.deadline clock 0 = .ok none ∧ action.timesOut (resultOfCall attempt) = true

theorem pushWithin_within (clock : Clock) (r : Ring α) (timeout : Timeout) (value : α) :
    Within clock r (.pushWithin timeout value) timeout (.pushTimedOut r.capacity)
      ((r.pushBackWithin clock timeout value).map .tried)
        ((r.push .reject value).map (showPush .reject value)) := by
  refine ⟨?_, ?_, ?_⟩
  · intro fault late
    simp only [Ring.pushBackWithin, late]
    rfl
  · intro until? timely finished
    rw [Ring.pushBackWithin_eq timely value (outcome_map_ne_waiting (outcome_ne_waiting finished)),
      Ring.tryPushBack]
    obtain ⟨outcome, ring, effects⟩ := r.push .reject value
    rcases outcome with (_ | _) | _ | _ <;> rfl
  · intro waits
    have attempt := Ring.pushBackWithin_waiting value
      (outcome_eq_waiting waits fun _ => by rintro ⟨⟩)
    rw [Ring.tryPushBack] at attempt
    generalize r.push .reject value = pushed at attempt
    obtain ⟨outcome, ring, effects⟩ := pushed
    rcases attempt with waits | ⟨unlimited, denied⟩
    · rcases outcome with (_ | _) | _ | _ <;> cases waits
      exact .inl rfl
    · rcases outcome with (_ | _) | _ | _ <;> cases denied
      exact .inr ⟨unlimited, rfl⟩

/-- A pop within a deadline, or a read, by how it presents what it finds. -/
theorem popWithin_within (clock : Clock) (r : Ring α) {timeout : Timeout}
    {present : Option α → Result α} (presents : action = .popWithin timeout ∧ present = .entry ∨
      action = .readWithin timeout ∧ present = fun a => .read (Ring.reading a)) :
    Within clock r action timeout (.popTimedOut r.capacity)
      ((r.popFrontWithin clock timeout).map present) (r.popFront.map present) := by
  have shown : ∀ found, present found ≠ .waiting := by
    rcases presents with ⟨-, rfl⟩ | ⟨-, rfl⟩ <;> nofun
  have nothing : action.timesOut (present none) = true := by
    rcases presents with ⟨rfl, rfl⟩ | ⟨rfl, rfl⟩ <;> rfl
  refine ⟨?_, ?_, ?_⟩
  · intro fault late
    have takes : action.values = [] := by
      rcases presents with ⟨rfl, -⟩ | ⟨rfl, -⟩ <;> rfl
    simp only [Ring.popFrontWithin, late, takes]
    rfl
  · intro until? timely finished
    rw [Ring.popFrontWithin_eq timely (outcome_map_ne_waiting (outcome_ne_waiting finished))]
    obtain ⟨outcome, ring, effects⟩ := r.popFront
    rcases presents with ⟨rfl, rfl⟩ | ⟨rfl, rfl⟩ <;> rcases outcome with (_ | _) | _ | _ <;> rfl
  · intro waits
    rw [resultOfCall_map]
    have attempt := Ring.popFrontWithin_waiting (outcome_eq_waiting waits shown)
    refine attempt.imp (fun waits => ?_) (.imp_right fun none => ?_)
    · rw [waits]
    · rw [none]
      exact nothing

/-! ### What handles ask for -/

/-- The calls that a handle of a split queue offers. -/
inductive Asks (setup : Setup α) (c : Channel α) (role : Role) : Action α → Call α (Result α) →
    Prop where
  | shared {action : Action α} {made : Call α (Result α)} (shared : action.isShared = true)
      (offered : action.isOffered .owner c.policy.isSome = true) (few : action.needsAll = false)
      (call : action.call? setup ⟨c.ring, c.policy, []⟩ .owner = some made) :
        Asks setup c role action made
  | timed {action once : Action α} {timeout : Timeout} {event : Event}
      {made attempt : Call α (Result α)}
      (untimed : action.untimed? c.ring.capacity = some (timeout, once, event))
      (offered : once.isOffered .owner c.policy.isSome = true) (few : once.needsAll = false)
      (call : once.call? setup ⟨c.ring, c.policy, []⟩ .owner = some attempt)
      (within : Within setup.clock c.ring action timeout event made attempt) :
        Asks setup c role action made
  | front (plain : c.policy = none) :
      Asks setup c role .front ((c.ring.peekClone setup.kind.cloning).map .entry)
  | drained {chosen : Policy} (policed : c.policy = some chosen) (most : Option Nat) :
      Asks setup c role (.drain most) ((c.ring.drain most).map .entries)
  | exclusive {operation : Exclusive α} (plain : c.policy = none) (consumer : role = .consumer)
      (sole : c.isSole = true) :
      Asks setup c role (.exclusive operation) ((operation.apply setup.kind c.ring).map fun x =>
        .exclusive (some x))

theorem Action.call?_asks (handle : role ≠ .owner)
    (offered : action.isOffered role c.policy.isSome = true)
    (call : action.call? setup c role = some made) : Asks setup c role action made := by
  cases action with
  | push terms value =>
    refine .shared rfl ?_ rfl ?_
    · cases terms <;> simp_all [Action.isOffered]
    · cases terms <;> exact call
  | popFront => exact .shared rfl (by simp_all [Action.isOffered]) rfl call
  | read => exact .shared rfl (by simp_all [Action.isOffered]) rfl call
  | pushWithin timeout value =>
    cases call
    have plain : c.policy.isSome = false := by simp_all [Action.isOffered]
    exact .timed rfl (by simp [Action.isOffered, plain]) rfl rfl
      (pushWithin_within setup.clock c.ring timeout value)
  | popWithin timeout =>
    cases call
    have plain : c.policy.isSome = false := by simp_all [Action.isOffered]
    exact .timed rfl (by simp [Action.isOffered, plain]) rfl rfl
      (popWithin_within setup.clock c.ring (.inl ⟨rfl, rfl⟩))
  | readWithin timeout =>
    cases call
    have policed : c.policy.isSome = true := by simp_all [Action.isOffered]
    refine .timed rfl (by simp [Action.isOffered, policed] : Action.isOffered _ _ .read = true)
      rfl rfl ?_
    rw [Ring.read?, Call.map_map]
    exact popWithin_within setup.clock c.ring (.inr ⟨rfl, rfl⟩)
  | front =>
    rw [Action.call?, if_neg handle] at call
    cases call
    exact .front (by simp_all [Action.isOffered])
  | drain most =>
    cases policy : c.policy with
    | none => exact .shared rfl (by simp [Action.isOffered, policy]) rfl call
    | some chosen =>
      cases call
      exact .drained policy most
  | exclusive operation =>
    have plain : c.policy = none := by
      cases policy : c.policy with
      | none => rfl
      | some chosen => simp_all [Action.isOffered]
    simp only [Action.call?] at call
    split at call
    · rename_i sole
      cases call
      exact .exclusive plain (by simp_all [Action.isOffered]) sole
    · cases call
  | reserve | clear => simp_all [Action.isOffered]
  | split | drop | observe | describe | pushFromThread | clone | blocks | policy => cases call

/-! ### Echoes -/

/-- A drain of a queue with a policy, by the reads of its owner. -/
theorem drain_echo (h : c.ring.Holds limit entries reserved) (chosen : Policy) (most : Option Nat) :
    ∃ xs, Echo setup c role ⟨.drain most, resultOfCall ((c.ring.drain most).map .entries),
        ((c.ring.drain most).map Result.entries).effects⟩ xs ∧
      Exchanges setup (some chosen) free c.ring xs
        ((c.ring.drain most).map Result.entries).ring := by
  obtain ⟨r', popped, rest, reads⟩ := popMany_reads setup chosen free h
    (most.getD entries.length) []
  have drained : c.ring.drain most = .returned (entries.take (most.getD entries.length)) r' [] := by
    simpa only [Ring.drain, h.unreadCount, List.reverse_nil, List.nil_append] using popped
  rw [drained]
  refine ⟨_, .drained ?_, reads.append ?_⟩
  · rintro n rfl
    exact List.length_take_le _ _
  · split
    · exact .nil _
    · rename_i fewer
      -- Either all entries are out, or more were asked for than there are.
      have none_left : entries.drop (most.getD entries.length) = [] := by
        rw [List.drop_eq_nil_iff]
        cases most with
        | none => exact Nat.le_refl _
        | some n =>
          simp only [Option.getD_some, List.length_take, Option.some.injEq] at fewer ⊢
          omega
      rw [none_left] at rest
      have read : Action.read.call? setup ⟨r', some chosen, []⟩ .owner =
          some (.returned (.read (.error .queueIsEmpty)) r' []) := by
        simp only [Action.call?, Ring.read?, rest.popFront_nil]
        rfl
      exact .one rfl (by rintro ⟨⟩) read (by rintro ⟨⟩)

/-- The owner makes the same call, and presents it in its own words. -/
theorem Exclusive.asOwner_call? (setup : Setup α) (h : c.ring.Holds limit entries reserved)
    {operation : Exclusive α} (calls : operation ≠ .front) :
    operation.asOwner.call? setup ⟨c.ring, c.policy, []⟩ .owner =
      some ((operation.apply setup.kind c.ring).map operation.answer) := by
  cases operation with
  | front => exact absurd rfl calls
  | reserve | clear | popFront =>
    rw [Exclusive.apply, Call.map_map]
    rfl
  | tryPushBack value =>
    rw [Exclusive.apply, Ring.tryPushBack, Call.map_map, Call.map_map]
    simp only [Exclusive.asOwner, Action.call?]
    obtain ⟨outcome, ring, effects⟩ := c.ring.push .reject value
    rcases outcome with (_ | _) | _ | _ <;> rfl
  | forcePushBack value =>
    rw [Exclusive.apply, Ring.forcePushBack, Call.map_map, Call.map_map]
    simp only [Exclusive.asOwner, Action.call?]
    have pushing := h.pushing .overwrite value
    generalize c.ring.push .overwrite value = pushed at pushing
    cases pushing with
    | denied kind full => cases kind
    | stored room holds => rfl
    | replaced kind split full holds => rfl
    | waiting kind full => rfl

theorem Exclusive.asOwner_isOffered (operation : Exclusive α) (plain : c.policy = none) :
    operation.asOwner.isOffered .owner c.policy.isSome = true := by
  rw [plain]
  cases operation <;> rfl

/-- An operation of the last handle, by the owner's. -/
theorem Exclusive.apply_echo (h : c.ring.Holds limit entries reserved) {operation : Exclusive α}
    (plain : c.policy = none) (sole : c.isSole = true) (alone : free)
    (finished : resultOfCall ((operation.apply setup.kind c.ring).map fun x => .exclusive
      (some x)) ≠ .waiting) :
    let made := (operation.apply setup.kind c.ring).map fun x => Result.exclusive (some x)
    ∃ xs, Echo setup c role ⟨.exclusive operation, resultOfCall made, made.effects⟩ xs ∧
      Exchanges setup c.policy free c.ring xs made.ring := by
  by_cases look : operation = .front
  · cases look
    exact ⟨_, .exclusive sole, .front plain (.nil _)⟩
  · have call := Exclusive.asOwner_call? setup h look
    have offered := Exclusive.asOwner_isOffered operation plain
    generalize operation.apply setup.kind c.ring = made at call finished
    obtain ⟨outcome, ring, effects⟩ := made
    cases outcome with
    | returned answer =>
      exact ⟨_, .exclusive sole, .one offered (fun _ => alone) call
        (operation.answer_ne_waiting answer)⟩
    | aborted fault => exact ⟨_, .exclusiveFailed sole, .one offered (fun _ => alone) call nofun⟩
    | waiting => exact absurd rfl finished

/-- A handle looks at a clone of the front, where the owner looks at the front. -/
theorem front_echo (h : c.ring.Holds limit entries reserved) (plain : c.policy = none) :
    let made := (c.ring.peekClone setup.kind.cloning).map Result.entry
    ∃ xs, Echo setup c role ⟨.front, resultOfCall made, made.effects⟩ xs ∧
      Exchanges setup c.policy free c.ring xs made.ring := by
  have peeked := h.serves.peekClone setup.kind.cloning
  have looks : Exchanges setup c.policy free c.ring _ c.ring := .front plain (.nil _)
  rw [← h.front?] at peeked
  cases front : c.ring.front? with
  | none =>
    rw [front] at peeked looks
    rw [peeked]
    exact ⟨_, .noFront, looks⟩
  | some a =>
    rw [front] at peeked looks
    cases cloned : setup.kind.cloning.copy 0 a with
    | ok copy =>
      simp only [cloned] at peeked
      rw [peeked]
      exact ⟨_, .front cloned, looks⟩
    | error fault =>
      simp only [cloned] at peeked
      rw [peeked]
      exact ⟨_, .frontFailed cloned, looks⟩

/-- Every call through a handle leads the ring where the owner's own calls lead it. -/
theorem Asks.echo (asks : Asks setup c role action made) (h : c.ring.Holds limit entries reserved)
    (alone : role = .consumer → c.isSole = true → free) (finished : resultOfCall made ≠ .waiting) :
    ∃ xs, Echo setup c role ⟨action, resultOfCall made, made.effects⟩ xs ∧
      Exchanges setup c.policy free c.ring xs made.ring := by
  cases asks with
  | shared shared offered few call =>
    exact ⟨_, .same shared, .one offered (by simp [few]) call finished⟩
  | @timed _ once timeout event _ attempt untimed offered few call within =>
    cases deadline : timeout.deadline setup.clock 0 with
    | error fault =>
      obtain rfl := within.late fault deadline
      exact ⟨[], .untimely untimed deadline, .nil _⟩
    | ok until? =>
      obtain rfl := within.timely until? deadline finished
      exact ⟨_, .timely untimed deadline, .one offered (by simp [few]) call finished⟩
  | front plain => exact front_echo h plain
  | drained policed most =>
    rw [policed]
    exact drain_echo h _ most
  | exclusive plain consumer sole =>
    exact Exclusive.apply_echo h plain sole (alone consumer sole) finished

/-- A handle never waits where the owner would go on, unless it waits without a deadline for what
the owner would not find. -/
theorem Asks.waits (asks : Asks setup c role action made) (h : c.ring.Holds limit entries reserved)
    (alone : role = .consumer → c.isSole = true → free) (waits : resultOfCall made = .waiting) :
    ∃ once attempt, once.isOffered .owner c.policy.isSome = true ∧ (once.needsAll = true → free) ∧
      once.call? setup ⟨c.ring, c.policy, []⟩ .owner = some attempt ∧
      ∀ answer : Action α → Result α, answer once = resultOfCall attempt →
        action.WaitsFor setup.clock answer := by
  cases asks with
  | shared shared offered few call =>
    exact ⟨action, made, offered, by simp [few], call, fun answer same => .owner (same.trans waits)⟩
  | @timed _ once timeout event _ attempt untimed offered few call within =>
    refine ⟨once, attempt, offered, by simp [few], call, fun answer same => .untimed _ untimed ?_⟩
    rw [same]
    exact within.waits waits
  | front plain =>
    have looks := outcome_eq_waiting waits nofun
    rw [h.serves.peekClone] at looks
    split at looks
    · cases looks
    · split at looks <;> cases looks
  | drained policed most =>
    obtain ⟨r', drained, -⟩ := h.drain most
    rw [drained] at waits
    cases waits
  | @exclusive operation plain consumer sole =>
    have waits := outcome_eq_waiting waits nofun
    have look : operation ≠ .front := by
      rintro rfl
      cases waits
    have call := Exclusive.asOwner_call? setup h look
    refine ⟨operation.asOwner, _, Exclusive.asOwner_isOffered operation plain,
      fun _ => alone consumer sole, call, ?_⟩
    intro answer same
    refine .exclusive (same.trans ?_)
    rw [resultOfCall_map, waits]

end Calls

end Session

end RingQueue
