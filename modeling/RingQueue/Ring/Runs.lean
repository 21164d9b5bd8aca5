import RingQueue.Ring.Checked

/-!
Runs of rings: what one caller does with any number of rings, call after call.

A push is two calls, so that its constructor may do anything in between: it asks for room, and
settles with the entry that was made or with the fault of the constructor. Several pushes may be
under way on a ring; the one that began last settles first. What needs a ring for itself is refused
while a push is under way. A call that would have to wait changes nothing, and the run goes on after
it; a call with a deadline is the same call made again and again.

The same run can be made with rings in numbers, with rings in machine words, and with rings in
machine words whose arithmetic is looked at.
-/
namespace RingQueue

/-- A ring in a run, and the pushes under way on it: for each what was evicted for it, the latest
first. -/
structure Owned (ρ α : Type) where
  ring : ρ
  pushes : List (Option α)

/-- What can be asked of a ring. -/
inductive RingCall (α : Type) where
  | len
  | front
  | popFront
  | drain (limit : Option Nat)
  -- Looking at the front, also to clone the entry there.
  | peek (look : α → Except Fault α)
  | request (policy : OverflowPolicy)
  | settle (made : Except Fault α)
  | duplicate
  | reserve (capacity : UInt64)
  | clear
  | release

/-- One step of a run. Rings are numbered in the order in which they came, without those released.
-/
inductive RingMove (α : Type) where
  | create (capacity : UInt64)
  | fill (capacity : UInt64) (a : α)
  | call (number : Nat) (call : RingCall α)

inductive RingAnswer (α : Type) where
  -- There is no such ring, no push to settle, or a push in the way.
  | refused
  | done (outcome : Outcome Unit)
  | count (n : Nat)
  | entry (outcome : Outcome (Option α))
  | entries (outcome : Outcome (List α))
  | room (outcome : Outcome (Room α))
  | pushed (outcome : Outcome (Pushed α))
  | released (fault : Option Fault)

/-- What comes of a call: its answer, the ring it was made on unless that is gone, and a copy if one
was made. -/
structure Performed (ρ α : Type) where
  answer : RingAnswer α
  held : Option (Owned ρ α)
  copy : Option ρ

/-- The operations on rings of one kind. -/
structure RingMachine (m : Type → Type) (ρ α : Type) where
  create : UInt64 → m (Except Fault ρ)
  fill : UInt64 → α → m (Except Fault ρ)
  len : ρ → Nat
  front : ρ → m (Option α)
  popFront : ρ → m (Outcome (Option α) × ρ)
  drain : Option Nat → ρ → m (Outcome (List α) × ρ)
  peek : (α → Except Fault α) → ρ → m (Outcome (Option α) × ρ)
  request : OverflowPolicy → ρ → m (Outcome (Room α) × ρ)
  settle : Option α → Except Fault α → ρ → m (Outcome (Pushed α) × ρ)
  duplicate : ρ → m (Outcome ρ × ρ)
  reserve : UInt64 → ρ → m (Outcome Unit × ρ)
  clear : ρ → m (Outcome Unit × ρ)
  release : ρ → m (Option Fault)

variable {m : Type → Type} {ρ α : Type}

/-! ## Calls -/

/-- The pushes under way once room was granted, or was not. -/
def Outcome.admitting (pushes : List (Option α)) : Outcome (Room α) → List (Option α)
  | .returned (.granted evicted) => evicted :: pushes
  | _ => pushes

namespace RingMachine

variable [Monad m]

def perform (machine : RingMachine m ρ α) (h : Owned ρ α) : RingCall α → m (Performed ρ α)
  | .len => return ⟨.count (machine.len h.ring), some h, none⟩
  | .front => do
    let a ← machine.front h.ring
    return ⟨.entry (.returned a), some h, none⟩
  | .popFront => do
    let (outcome, ring) ← machine.popFront h.ring
    return ⟨.entry outcome, some { h with ring }, none⟩
  | .drain limit => do
    let (outcome, ring) ← machine.drain limit h.ring
    return ⟨.entries outcome, some { h with ring }, none⟩
  | .peek look => do
    let (outcome, ring) ← machine.peek look h.ring
    return ⟨.entry outcome, some { h with ring }, none⟩
  | .request policy => do
    let (outcome, ring) ← machine.request policy h.ring
    return ⟨.room outcome, some ⟨ring, outcome.admitting h.pushes⟩, none⟩
  | .settle made => do
    match h.pushes with
    | [] => return ⟨.refused, some h, none⟩
    | evicted :: pushes =>
      let (outcome, ring) ← machine.settle evicted made h.ring
      return ⟨.pushed outcome, some ⟨ring, pushes⟩, none⟩
  | .duplicate => do
    let (outcome, ring) ← machine.duplicate h.ring
    return ⟨.done (outcome.map fun _ => ()), some { h with ring }, outcome.value?⟩
  | .reserve capacity => do
    if h.pushes.isEmpty then
      let (outcome, ring) ← machine.reserve capacity h.ring
      return ⟨.done outcome, some { h with ring }, none⟩
    else return ⟨.refused, some h, none⟩
  | .clear => do
    if h.pushes.isEmpty then
      let (outcome, ring) ← machine.clear h.ring
      return ⟨.done outcome, some { h with ring }, none⟩
    else return ⟨.refused, some h, none⟩
  | .release => do
    if h.pushes.isEmpty then
      let fault ← machine.release h.ring
      return ⟨.released fault, none, none⟩
    else return ⟨.refused, some h, none⟩

end RingMachine

/-! ## Runs -/

/-- The rings of a run once a call was made on one of them. -/
def Performed.update (p : Performed ρ α) (number : Nat) (rings : List (Owned ρ α)) :
    List (Owned ρ α) :=
  let others :=
    match p.held with
    | some held => rings.set number held
    | none => rings.eraseIdx number
  others ++ (p.copy.map fun ring => ⟨ring, []⟩).toList

/-- An answer, and the rings after it. -/
structure RingRecord (ρ α : Type) where
  answer : RingAnswer α
  rings : List (Owned ρ α)

/-- The rings once a new one was made, or was not. -/
def RingRecord.made (rings : List (Owned ρ α)) : Except Fault ρ → RingRecord ρ α
  | .ok ring => ⟨.done (.returned ()), rings ++ [⟨ring, []⟩]⟩
  | .error fault => ⟨.done (.aborted fault), rings⟩

namespace RingMachine

variable [Monad m]

def step (machine : RingMachine m ρ α) (rings : List (Owned ρ α)) : RingMove α → m (RingRecord ρ α)
  | .create capacity => do
    let made ← machine.create capacity
    return .made rings made
  | .fill capacity a => do
    let made ← machine.fill capacity a
    return .made rings made
  | .call number call => do
    match rings[number]? with
    | none => return ⟨.refused, rings⟩
    | some held =>
      let performed ← machine.perform held call
      return ⟨performed.answer, performed.update number rings⟩

/-- The answers to all moves, each with the rings after it. -/
def run (machine : RingMachine m ρ α) (rings : List (Owned ρ α)) :
    List (RingMove α) → m (List (RingRecord ρ α))
  | [] => return []
  | move :: moves => do
    let record ← machine.step rings move
    let records ← machine.run record.rings moves
    return record :: records

end RingMachine

/-! ## Three kinds of rings -/

def Call.pair {β : Type} (c : Call α β) : Outcome β × Ring α := (c.outcome, c.ring)

namespace RingMachine

/-- Rings in numbers. -/
def numbers (k : EntryKind α) : RingMachine Id (Ring α) α where
  create capacity := (Ring.create k capacity.toNat).result
  fill capacity a := (Ring.filled k capacity.toNat a).result
  len r := r.len
  front r := r.front?
  popFront r := r.popFront.pair
  drain limit r := (r.drain limit).pair
  peek look r := (r.peek look).pair
  request policy r := (r.request policy).pair
  settle evicted made r := (r.settle evicted made).pair
  duplicate r := (r.duplicate k).pair
  reserve capacity r := (r.reserve k capacity.toNat).pair
  clear r := (r.clear k).pair
  release r := (r.release k).1

/-- Rings in machine words. -/
def words (k : EntryKind α) : RingMachine Id (WordRing α) α where
  create capacity := WordRing.create k capacity
  fill capacity a := WordRing.filled k capacity a
  len w := w.len.toNat
  front w := w.front?
  popFront w := w.popFront
  drain limit w := w.drain limit
  peek look w := w.peek look
  request policy w := w.request policy
  settle evicted made w := w.settle evicted made
  duplicate w := w.duplicate k
  reserve capacity w := w.reserve k capacity
  clear w := w.clear k
  release w := w.release k

/-- Rings in machine words whose arithmetic is looked at. -/
def checked (k : EntryKind α) : RingMachine (Except Flaw) (WordRing α) α where
  create capacity := .ok (WordRing.create k capacity)
  fill capacity a := Checked.filled k capacity a
  len w := w.len.toNat
  front w := Checked.front? w
  popFront w := Checked.popFront w
  drain limit w := Checked.drain limit w
  peek look w := Checked.peek look w
  request policy w := Checked.request policy w
  settle evicted made w := Checked.settle evicted made w
  duplicate w := Checked.duplicate k w
  reserve capacity w := Checked.reserve k capacity w
  clear w := Checked.clear k w
  release w := Checked.release k w

end RingMachine

end RingQueue
