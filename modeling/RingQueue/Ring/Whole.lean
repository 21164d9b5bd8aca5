import RingQueue.Ring.Call

/-!
Operations that make, rebuild, clone or release a whole ring. All but `duplicate` need a caller whom
no other handle can disturb.

A ring lives in one block of slots. Entries without content need no block.
-/
namespace RingQueue

variable {α : Type}

def EntryKind.allocate (k : EntryKind α) (capacity : Nat) : List (Effect α) :=
  if k.zeroSized then [] else [.allocated capacity]

def EntryKind.free (k : EntryKind α) (capacity : Nat) : List (Effect α) :=
  if k.zeroSized then [] else [.freed capacity]

namespace Ring

/-! ## New rings -/

def create (k : EntryKind α) (capacity : Nat) : Built α (Ring α) :=
  match k.checkSlots capacity with
  | .error fault => ⟨.error fault, []⟩
  | .ok () => ⟨.ok (empty capacity), k.allocate capacity ++ [.reported (.ringCreated capacity)]⟩

/-- A full ring: clones of an entry, and the entry itself in the last place. When a clone fails, the
block is given back and the entry dropped; the clones made before it are lost. -/
def filled (k : EntryKind α) (capacity : Nat) (a : α) : Built α (Ring α) :=
  match k.checkSlots capacity with
  | .error fault => ⟨.error fault, [.dropped (.single a)]⟩
  | .ok () =>
    let clones := k.cloning.cloneAll (.replicate (capacity - 1) a)
    match clones.fault with
    | some fault =>
      ⟨.error fault,
        k.allocate capacity ++ [.cloned clones.made] ++ k.free capacity ++ [.dropped (.single a)]⟩
    | none =>
      let entries : Batch α :=
        ⟨capacity, fun i => if i + 1 = capacity then some a else clones.made.entry i⟩
      ⟨.ok (ofBatch capacity entries), k.allocate capacity ++ [.cloned clones.made]⟩

/-- A new ring of the same capacity, for which there is a block like that of the old ring. It holds
clones of the unread entries. When a clone fails, the clones made before it are dropped and there is
no new ring. -/
def duplicate (k : EntryKind α) (r : Ring α) : Call α (Ring α) :=
  match r.pin with
  | none => .waiting r
  | some (position, held) =>
    let unread : Batch α := ⟨held.visible - position, fun i => held.entry (position + i)⟩
    let clones := k.cloning.cloneAll unread
    match clones.fault with
    | some fault =>
      ⟨.aborted fault, held.unpin position, [.cloned clones.made, .dropped clones.made]⟩
    | none =>
      .returned (ofBatch r.capacity clones.made) (held.unpin position)
        ([.cloned clones.made] ++ k.allocate r.capacity ++ [.reported (.ringCreated r.capacity)])

/-! ## Rebuilding -/

/-- Grows the ring; the unread entries move to the first slots of a new block. A capacity that is
not larger changes nothing. -/
def reserve (k : EntryKind α) (capacity : Nat) (r : Ring α) : Call α Unit :=
  if capacity ≤ r.capacity then .returned () r []
  else
    match k.checkSlots capacity with
    | .error fault => ⟨.aborted fault, r, []⟩
    | .ok () =>
      .returned () (ofBatch capacity r.unreadBatch)
        (k.allocate capacity ++ k.free r.capacity ++
          [.reported (.ringGrown r.capacity capacity r.unreadCount)])

/-- Drops the unread entries and starts over on a new block. When an entry breaks off while it is
dropped, the ring stays as it was, with the entries dropped so far still in their slots. -/
def clear (k : EntryKind α) (r : Ring α) : Call α Unit :=
  let dropping := k.dropAll r.unreadBatch
  let log : List (Effect α) :=
    [.reported (.clearing r.capacity r.unreadCount), .dropped dropping.dropped]
  match dropping.fault with
  | some fault => ⟨.aborted fault, r, log⟩
  | none => .returned () (empty r.capacity) (log ++ k.allocate r.capacity ++ k.free r.capacity)

/-! ## The end of a ring -/

/-- A ring that nobody holds any more drops its unread entries, oldest first, and then gives its
block back. The fault is that of an entry that broke off; the entries behind it are lost. -/
def release (k : EntryKind α) (r : Ring α) : Option Fault × List (Effect α) :=
  let dropping := k.dropAll r.unreadBatch
  (dropping.fault, [.dropped dropping.dropped] ++ k.free r.capacity)

end Ring

end RingQueue
