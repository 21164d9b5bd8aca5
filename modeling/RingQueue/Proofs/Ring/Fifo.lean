import RingQueue.Proofs.Ring.Calls

/-!
A ring is a bounded first-in-first-out list.

`Fifo` is that list with the operations of a queue. `ring_refines_fifo` says that no sequence of
calls can tell a ring from it: not by what the calls answer, nor by what the observers show in
between.
-/
namespace RingQueue

variable {α : Type}

theorem Outcome.map_map {β γ δ : Type} (f : β → γ) (g : γ → δ) (o : Outcome β) :
    (o.map f).map g = o.map (g ∘ f) := by
  cases o <;> rfl

/-- What one caller can ask of a queue. -/
inductive Operation (α : Type) where
  | pushBack (value : α)
  | tryPushBack (value : α)
  | forcePushBack (value : α)
  -- A push whose constructor makes the value.
  | emplace (policy : OverflowPolicy) (value : α)
  | popFront
  | front
  | drain (limit : Option Nat)

/-- What a caller gets back. -/
inductive Answer (α : Type) where
  | done
  | tried (result : Except α Unit)
  | evicted (entry : Option α)
  | emplaced (result : Pushed α)
  | entry (entry : Option α)
  | entries (entries : List α)

/-- What the observers of a queue show. -/
structure View where
  len : Nat
  capacity : Nat
  isEmpty : Bool
  isFull : Bool
  deriving DecidableEq, Repr

/-- The outcomes of calls made one after the other, each with the view after it. A call that waits
is the last one. -/
def record {σ : Type} (perform : σ → Operation α → Outcome (Answer α) × σ) (view : σ → View) :
    List (Operation α) → σ → List (Outcome (Answer α) × View)
  | [], _ => []
  | operation :: rest, s =>
    let (outcome, s) := perform s operation
    (outcome, view s) ::
      match outcome with
      | .returned _ => record perform view rest s
      | _ => []

/-- Two queues record the same as long as each call finds them related. -/
theorem record_eq_of_related {σ τ : Type} {perform : σ → Operation α → Outcome (Answer α) × σ}
    {perform' : τ → Operation α → Outcome (Answer α) × τ} {view : σ → View} {view' : τ → View}
    (related : List (Operation α) → σ → τ → Prop)
    (views : ∀ rest s t, related rest s t → view s = view' t)
    (step : ∀ operation rest s t, related (operation :: rest) s t →
      (perform s operation).1 = (perform' t operation).1 ∧
        related rest (perform s operation).2 (perform' t operation).2)
    (operations : List (Operation α)) (s : σ) (t : τ) (start : related operations s t) :
    record perform view operations s = record perform' view' operations t := by
  induction operations generalizing s t with
  | nil => rfl
  | cons operation rest ih =>
    obtain ⟨outcome, next⟩ := step operation rest s t start
    have tail := ih _ _ next
    simp only [record, views _ _ _ next, outcome, tail]

/-! ## The list -/

/-- A list that is never longer than its capacity. -/
structure Fifo (α : Type) where
  capacity : Nat
  entries : List α

namespace Fifo

def isFull (q : Fifo α) : Bool := q.entries.length = q.capacity

/-- The list with an entry at its end. -/
def add (a : α) (q : Fifo α) : Fifo α := { q with entries := q.entries ++ [a] }

/-- The list once its oldest entry has made way for a new one. -/
def shift (a : α) (q : Fifo α) : Fifo α := { q with entries := q.entries.tail ++ [a] }

def perform (q : Fifo α) : Operation α → Outcome (Answer α) × Fifo α
  | .pushBack a => if q.isFull then (.waiting, q) else (.returned .done, q.add a)
  | .tryPushBack a =>
    if q.isFull then (.returned (.tried (.error a)), q) else (.returned (.tried (.ok ())), q.add a)
  | .forcePushBack a =>
    if q.isFull then (.returned (.evicted q.entries.head?), q.shift a)
    else (.returned (.evicted none), q.add a)
  | .emplace policy a =>
    if q.isFull then
      match policy with
      | .reject => (.returned (.emplaced .denied), q)
      | .block => (.waiting, q)
      | .overwrite => (.returned (.emplaced (.stored q.entries.head?)), q.shift a)
    else (.returned (.emplaced (.stored none)), q.add a)
  | .popFront => (.returned (.entry q.entries.head?), { q with entries := q.entries.tail })
  | .front => (.returned (.entry q.entries.head?), q)
  | .drain limit =>
    let count := limit.getD q.entries.length
    (.returned (.entries (q.entries.take count)), { q with entries := q.entries.drop count })

def view (q : Fifo α) : View := ⟨q.entries.length, q.capacity, q.entries.length = 0, q.isFull⟩

/-! ### Pushes

Four operations push. They differ in the policy and in the words of their answers only. -/

/-- What becomes of a push, by policy. -/
def offer (policy : OverflowPolicy) (a : α) (q : Fifo α) : Outcome (Pushed α) × Fifo α :=
  if q.isFull then
    match policy with
    | .reject => (.returned .denied, q)
    | .block => (.waiting, q)
    | .overwrite => (.returned (.stored q.entries.head?), q.shift a)
  else (.returned (.stored none), q.add a)

theorem perform_pushBack (q : Fifo α) (a : α) :
    q.perform (.pushBack a) = ((q.offer .block a).1.map fun _ => .done, (q.offer .block a).2) := by
  simp only [perform, offer]
  split <;> rfl

theorem perform_tryPushBack (q : Fifo α) (a : α) :
    q.perform (.tryPushBack a) =
      ((q.offer .reject a).1.map fun
        | .denied => .tried (.error a)
        | .stored _ => .tried (.ok ()), (q.offer .reject a).2) := by
  simp only [perform, offer]
  split <;> rfl

theorem perform_forcePushBack (q : Fifo α) (a : α) :
    q.perform (.forcePushBack a) =
      ((q.offer .overwrite a).1.map fun
        | .denied => .evicted none
        | .stored evicted => .evicted evicted, (q.offer .overwrite a).2) := by
  simp only [perform, offer]
  split <;> rfl

theorem perform_emplace (q : Fifo α) (policy : OverflowPolicy) (a : α) :
    q.perform (.emplace policy a) =
      ((q.offer policy a).1.map .emplaced, (q.offer policy a).2) := by
  simp only [perform, offer]
  split
  · cases policy <;> rfl
  · rfl

end Fifo

/-! ## The ring -/

namespace Ring

def perform (r : Ring α) : Operation α → Call α (Answer α)
  | .pushBack a => (r.pushBack a).map fun _ => .done
  | .tryPushBack a => (r.tryPushBack a).map .tried
  | .forcePushBack a => (r.forcePushBack a).map .evicted
  | .emplace policy a => (r.emplace policy fun _ => .ok a).map .emplaced
  | .popFront => r.popFront.map .entry
  | .front => .returned (.entry r.front?) r []
  | .drain limit => (r.drain limit).map .entries

/-- The outcome of an operation and the ring after it. -/
def performed (r : Ring α) (operation : Operation α) : Outcome (Answer α) × Ring α :=
  ((r.perform operation).outcome, (r.perform operation).ring)

def view (r : Ring α) : View := ⟨r.len, r.capacity, r.isEmpty, r.isFull⟩

/-- The ring stands for the list. -/
def Represents (r : Ring α) (q : Fifo α) : Prop := 0 < q.capacity ∧ r.Holds q.capacity q.entries 0

theorem Represents.view {r : Ring α} {q : Fifo α} (h : r.Represents q) : r.view = q.view := by
  have len : r.len = q.entries.length := h.2.len
  simp only [Ring.view, Fifo.view, isEmpty, Ring.isFull, Fifo.isFull, len, h.2.capacity]

/-- A push has the same outcome on a ring and on the list it stands for. -/
theorem Represents.push {r : Ring α} {q : Fifo α} (h : r.Represents q) (policy : OverflowPolicy)
    (a : α) :
    (r.push policy a).outcome = (q.offer policy a).1 ∧
      (r.push policy a).ring.Represents (q.offer policy a).2 := by
  obtain ⟨capacity, entries⟩ := q
  obtain ⟨positive, holds⟩ := h
  simp only at positive holds
  have fits := holds.fits
  simp only [Ring.push, Fifo.offer, Fifo.isFull, decide_eq_true_eq]
  by_cases full : entries.length = capacity
  · rw [if_pos full]
    cases policy with
    | reject =>
      rw [holds.emplace_reject_full _ full]
      exact ⟨rfl, positive, holds⟩
    | block =>
      rw [holds.emplace_block_full _ full]
      exact ⟨rfl, positive, holds⟩
    | overwrite =>
      cases entries with
      | nil =>
        -- A ring has a slot at least, so it is not full when it is empty.
        simp only [List.length_nil] at full
        omega
      | cons oldest rest =>
        obtain ⟨r', stored, restHolds⟩ := holds.emplace_overwrite_full (fun _ => .ok a) full rfl
        rw [stored]
        exact ⟨rfl, positive, restHolds⟩
  · rw [if_neg full]
    obtain ⟨r', stored, holds'⟩ := holds.emplace_room (fun _ => .ok a) (by omega) policy rfl
    rw [stored]
    exact ⟨rfl, positive, holds'⟩

/-- One operation has the same outcome on a ring and on the list it stands for. -/
theorem Represents.performed {r : Ring α} {q : Fifo α} (h : r.Represents q)
    (operation : Operation α) :
    (r.performed operation).1 = (q.perform operation).1 ∧
      (r.performed operation).2.Represents (q.perform operation).2 := by
  cases operation with
  | pushBack a =>
    obtain ⟨outcome, represents⟩ := h.push .block a
    rw [Fifo.perform_pushBack, ← outcome]
    exact ⟨Outcome.map_map _ _ _, represents⟩
  | tryPushBack a =>
    obtain ⟨outcome, represents⟩ := h.push .reject a
    rw [Fifo.perform_tryPushBack, ← outcome]
    refine ⟨(Outcome.map_map _ _ _).trans ?_, represents⟩
    congr 1
    funext pushed
    cases pushed <;> rfl
  | forcePushBack a =>
    obtain ⟨outcome, represents⟩ := h.push .overwrite a
    rw [Fifo.perform_forcePushBack, ← outcome]
    refine ⟨(Outcome.map_map _ _ _).trans ?_, represents⟩
    congr 1
    funext pushed
    cases pushed <;> rfl
  | emplace policy a =>
    obtain ⟨outcome, represents⟩ := h.push policy a
    rw [Fifo.perform_emplace, ← outcome]
    exact ⟨rfl, represents⟩
  | popFront =>
    obtain ⟨capacity, entries⟩ := q
    cases entries with
    | nil =>
      have nothing : r.popFront = .returned none r [] := h.2.popFront_nil
      simp only [Ring.performed, perform, nothing]
      exact ⟨rfl, h⟩
    | cons a rest =>
      obtain ⟨r', popped, holds⟩ := h.2.popFront_cons
      simp only [Ring.performed, perform, popped]
      exact ⟨rfl, h.1, holds⟩
  | front =>
    simp only [Ring.performed, perform, h.2.front?]
    exact ⟨rfl, h⟩
  | drain limit =>
    obtain ⟨r', drained, holds⟩ := h.2.drain limit
    simp only [Ring.performed, perform, drained]
    exact ⟨rfl, h.1, holds⟩

/-- No sequence of operations tells a ring from the list it stands for. -/
theorem Represents.record_eq {r : Ring α} {q : Fifo α} (h : r.Represents q)
    (operations : List (Operation α)) :
    record Ring.performed Ring.view operations r = record Fifo.perform Fifo.view operations q :=
  record_eq_of_related (fun _ => Represents) (fun _ _ _ => Represents.view)
    (fun operation _ _ _ related => related.performed operation) operations r q h

end Ring
end RingQueue
