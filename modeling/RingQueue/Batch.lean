/-!
Entries in a row, given by their number and by what stands at each place. Nothing is computed before
it is looked at, so that a batch may hold billions of entries without content.
-/
namespace RingQueue

/-- `count` entries in a row; `entry i` is the one at place `i < count`. -/
structure Batch (α : Type) where
  count : Nat
  entry : Nat → Option α

namespace Batch

variable {α : Type}

def toList (b : Batch α) : List α := (List.range b.count).filterMap b.entry

def empty : Batch α := ⟨0, fun _ => none⟩

def single (a : α) : Batch α := ⟨1, fun _ => some a⟩

def replicate (n : Nat) (a : α) : Batch α := ⟨n, fun _ => some a⟩

def ofArray (as : Array α) : Batch α := ⟨as.size, fun i => as[i]?⟩

def take (n : Nat) (b : Batch α) : Batch α := ⟨min n b.count, b.entry⟩

@[simp] theorem toList_empty : (empty : Batch α).toList = [] := rfl

@[simp] theorem toList_single (a : α) : (single a).toList = [a] := rfl

@[simp] theorem toList_replicate (n : Nat) (a : α) :
    (replicate n a).toList = List.replicate n a := by
  simp [toList, replicate, List.filterMap_eq_map', List.map_const']

@[simp] theorem toList_ofArray (as : Array α) : (ofArray as).toList = as.toList := by
  apply List.ext_getElem?
  intro i
  simp only [toList, ofArray]
  have entries : (List.range as.size).filterMap (fun i => as[i]?) = as.toList := by
    rw [← Array.length_toList]
    have aux : ∀ l : List α, (List.range l.length).filterMap (fun i => l[i]?) = l := by
      intro l
      induction l with
      | nil => rfl
      | cons a l ih =>
        simp only [List.length_cons, List.range_succ_eq_map, List.filterMap_cons,
          List.getElem?_cons_zero, List.filterMap_map]
        exact congrArg (a :: ·) ih
    simpa using aux as.toList
  rw [entries]

end Batch

end RingQueue
