import RingQueue.Batch
import RingQueue.Fault

/-!
How entries behave when a queue stores, clones or drops them.
-/
namespace RingQueue

/-- How entries are cloned. -/
inductive Cloning (α : Type) where
  -- A clone is the entry itself.
  | verbatim
  -- The entry decides; the number tells how many clones the same operation made before.
  | calling (clone : Nat → α → Except Fault α)

/-- What a queue has to know about its entries. -/
structure EntryKind (α : Type) where
  -- How many bytes a slot has.
  slotBytes : Nat
  cloning : Cloning α
  -- The entries that break off while being dropped, if there are any.
  dropFails : Option (α → Bool)

/-- The clones of a row of entries up to the first that failed. -/
structure Clones (α : Type) where
  made : Batch α
  fault : Option Fault

variable {α : Type}

/-! ## Slots -/

/-- The largest number of bytes of a block of slots. -/
def maxBlockBytes : Nat := 9223372036854775807

namespace EntryKind

/-- Entries without content need no slots from the allocator. -/
def zeroSized (k : EntryKind α) : Bool := k.slotBytes = 0

/-- Whether there is a block of so many slots. -/
def HasBlock (k : EntryKind α) (capacity : Nat) : Prop := capacity * k.slotBytes ≤ maxBlockBytes

instance (k : EntryKind α) (capacity : Nat) : Decidable (k.HasBlock capacity) :=
  inferInstanceAs (Decidable (capacity * k.slotBytes ≤ maxBlockBytes))

/-- What is looked at before a block is taken: the capacity, and then the bytes of the slots. -/
def checkSlots (k : EntryKind α) (capacity : Nat) : Except Fault Unit :=
  match checkCapacity capacity with
  | .error fault => .error (.capacity fault)
  | .ok () => if k.HasBlock capacity then .ok () else .error .layoutOverflow

theorem checkSlots_eq_ok_iff (k : EntryKind α) (capacity : Nat) :
    k.checkSlots capacity = .ok () ↔ 0 < capacity ∧ capacity ≤ maxCapacity ∧
      k.HasBlock capacity := by
  rw [← and_assoc, ← checkCapacity_eq_ok_iff, checkSlots]
  cases checkCapacity capacity with
  | error fault => simp
  | ok _ => by_cases block : k.HasBlock capacity <;> simp [block]

theorem checkSlots_of_refused (k : EntryKind α) {capacity : Nat} {fault : CapacityFault}
    (refused : checkCapacity capacity = .error fault) : k.checkSlots capacity =
    .error (.capacity fault) := by
  rw [checkSlots, refused]

theorem checkSlots_of_too_many_bytes {k : EntryKind α} {capacity : Nat} (positive : 0 < capacity)
    (bounded : capacity ≤ maxCapacity) (overflow : ¬ k.HasBlock capacity) :
    k.checkSlots capacity = .error .layoutOverflow := by
  rw [checkSlots, (checkCapacity_eq_ok_iff capacity).mpr ⟨positive, bounded⟩]
  exact if_neg overflow

end EntryKind

/-! ## Clones and drops -/

/-- The clone of an entry that an operation makes after so many others. -/
def Cloning.copy (cloning : Cloning α) (before : Nat) (a : α) : Except Fault α :=
  match cloning with
  | verbatim => .ok a
  | calling clone => clone before a

/-- Clones one entry after another; `done` holds the clones made so far. -/
def Cloning.cloneFrom (clone : Nat → α → Except Fault α) (done : Array α) : List α → Clones α
  | [] => ⟨Batch.ofArray done, none⟩
  | a :: rest =>
    match clone done.size a with
    | .ok copy => cloneFrom clone (done.push copy) rest
    | .error fault => ⟨Batch.ofArray done, some fault⟩

def Cloning.cloneAll (c : Cloning α) (entries : Batch α) : Clones α :=
  match c with
  | verbatim => ⟨entries, none⟩
  | calling clone => cloneFrom clone #[] entries.toList

/-- The entries that are dropped when a row of them is: all, or those up to and including the first
that breaks off. -/
structure Dropping (α : Type) where
  dropped : Batch α
  fault : Option Fault

def EntryKind.dropAll (k : EntryKind α) (entries : Batch α) : Dropping α :=
  match k.dropFails with
  | none => ⟨entries, none⟩
  | some fails =>
    match entries.toList.findIdx? fails with
    | none => ⟨entries, none⟩
    | some i => ⟨entries.take (i + 1), some .dropFailed⟩

/-- The fault of a single entry that is dropped, if it breaks off. -/
def EntryKind.dropFault (k : EntryKind α) (a : α) : Option Fault := (k.dropAll (.single a)).fault

/-- Entries of eight bytes that can always be cloned and dropped. -/
def EntryKind.plain : EntryKind α := ⟨8, .verbatim, none⟩

/-- Entries without content. -/
def EntryKind.empty : EntryKind α := ⟨0, .verbatim, none⟩

/-! ## Entries that can be followed -/

/-- A number, and whether cloning fails. -/
structure Tracked where
  value : Int
  fragile : Bool
  deriving DecidableEq, Repr

namespace Tracked

/-- A clone of a sound entry is the same entry; a fragile one breaks off. -/
def clone (t : Tracked) : Except Fault Tracked :=
  if t.fragile then .error (.cloneFailed (toString t.value)) else .ok t

def kind : EntryKind Tracked := ⟨16, .calling fun _ t => t.clone, none⟩

end Tracked

end RingQueue
