import Mathlib.Data.Multiset.AddSub
import RingQueue.Proofs.Ring.Logs

/-!
What becomes of the blocks that rings take.

`Effect.inUse` is an allocator that breaks off when a block is given back that is not in use. `Uses`
says that a log does not make it break off, and which blocks are in use then. A ring always has one
block, of its present capacity: a birth takes it, turns replace it by another, and a release gives
it back.
-/
namespace RingQueue

variable {α β : Type}

/-! ## A strict allocator -/

namespace Effect

/-- The log neither takes nor gives back a block. -/
structure IsIdle (log : List (Effect α)) : Prop where
  allocations : allocations log = []
  releases : releases log = []

theorem IsIdle.nil : IsIdle ([] : List (Effect α)) := ⟨rfl, rfl⟩

theorem IsIdle.append {log log' : List (Effect α)} (first : IsIdle log) (second : IsIdle log') :
    IsIdle (log ++ log') :=
  ⟨by simp [first.allocations, second.allocations], by simp [first.releases, second.releases]⟩

theorem IsPlain.idle {log : List (Effect α)} (plain : IsPlain log) : IsIdle log :=
  ⟨plain.allocations, plain.releases⟩

end Effect

/-- The blocks in use after something more was done, by their numbers of slots. -/
def Effect.use (blocks : Multiset Nat) : Effect α → Option (Multiset Nat)
  | allocated slots => some (slots ::ₘ blocks)
  | freed slots => if slots ∈ blocks then some (blocks.erase slots) else none
  | _ => some blocks

/-- The blocks in use after a log. -/
def Effect.inUse (blocks : Multiset Nat) (log : List (Effect α)) : Option (Multiset Nat) :=
  log.foldlM Effect.use blocks

/-- The log leads from the blocks in use to others, and never gives back a block that is not in use.
-/
def Uses (log : List (Effect α)) (before after : Multiset Nat) : Prop :=
  Effect.inUse before log = some after

namespace Uses

variable {log log' : List (Effect α)} {before between after : Multiset Nat}

@[simp] theorem nil (blocks : Multiset Nat) : Uses ([] : List (Effect α)) blocks blocks := rfl

theorem append (first : Uses log before between) (second : Uses log' between after) :
    Uses (log ++ log') before after := by
  rw [Uses, Effect.inUse, List.foldlM_append]
  rw [Uses, Effect.inUse] at first
  rw [first]
  exact second

theorem cons_iff {effect : Effect α} :
    Uses (effect :: log) before after ↔ ∃ between, effect.use before = some between ∧
      Uses log between after := by
  rw [Uses, Effect.inUse, List.foldlM_cons]
  exact Option.bind_eq_some_iff

/-- Blocks of others do not count. -/
theorem frame (uses : Uses log before after) (others : Multiset Nat) :
    Uses log (before + others) (after + others) := by
  induction log generalizing before with
  | nil =>
    cases uses
    exact nil _
  | cons effect log ih =>
    obtain ⟨between, used, later⟩ := cons_iff.mp uses
    refine cons_iff.mpr ⟨between + others, ?_, ih later⟩
    cases effect with
    | freed slots =>
      simp only [Effect.use] at used ⊢
      split at used
      · rename_i member
        cases used
        rw [if_pos (Multiset.mem_add.mpr (.inl member)), Multiset.erase_add_left_pos _ member]
      · cases used
    | allocated slots =>
      cases used
      exact congrArg some (Multiset.cons_add slots before others).symm
    | cloned | dropped | reported =>
      cases used
      rfl

/-- All blocks that there were and that were taken are in use or were given back. -/
theorem balance (uses : Uses log before after) :
    before + Effect.allocations log = after + Effect.releases log := by
  induction log generalizing before with
  | nil =>
    cases uses
    rfl
  | cons effect log ih =>
    obtain ⟨between, used, later⟩ := cons_iff.mp uses
    have rest := ih later
    cases effect with
    | freed slots =>
      simp only [Effect.use] at used
      split at used
      · rename_i member
        cases used
        change before + (Effect.allocations log : Multiset Nat) =
          after + (slots :: Effect.releases log : List Nat)
        rw [← Multiset.cons_coe, Multiset.add_cons, ← rest, ← Multiset.cons_add,
          Multiset.cons_erase member]
      · cases used
    | allocated slots =>
      cases used
      change before + (slots :: Effect.allocations log : List Nat) =
        after + (Effect.releases log : Multiset Nat)
      rw [← Multiset.cons_coe, Multiset.add_cons, ← Multiset.cons_add]
      exact rest
    | cloned | dropped | reported =>
      cases used
      exact rest

theorem idle (idle : Effect.IsIdle log) (blocks : Multiset Nat) : Uses log blocks blocks := by
  obtain ⟨allocations, releases⟩ := idle
  induction log with
  | nil => exact nil _
  | cons effect log ih =>
    cases effect with
    | allocated => cases allocations
    | freed => cases releases
    | cloned | dropped | reported => exact cons_iff.mpr ⟨blocks, rfl, ih allocations releases⟩

theorem plain (plain : Effect.IsPlain log) (blocks : Multiset Nat) : Uses log blocks blocks :=
  idle plain.idle blocks

end Uses

/-- The counters of an allocator follow the blocks in use. -/
theorem Blocks.afterAll_live {log : List (Effect α)} {before after : Multiset Nat}
    (uses : Uses log before after) {b : Blocks} (counted : b.live = before.card) :
    (b.afterAll log).live = after.card := by
  induction log generalizing b before with
  | nil =>
    cases uses
    exact counted
  | cons effect log ih =>
    obtain ⟨between, used, later⟩ := Uses.cons_iff.mp uses
    refine ih later ?_
    cases effect with
    | freed slots =>
      simp only [Effect.use] at used
      split at used
      · rename_i member
        cases used
        rw [Multiset.card_erase_of_mem member, ← counted]
        rfl
      · cases used
    | allocated slots =>
      cases used
      rw [Multiset.card_cons, ← counted]
      rfl
    | cloned | dropped | reported =>
      cases used
      exact counted

theorem Blocks.afterAll_total (log : List (Effect α)) (b : Blocks) :
    (b.afterAll log).total = b.total + (Effect.allocations log).length := by
  induction log generalizing b with
  | nil => rfl
  | cons effect log ih =>
    refine (ih (b.after effect)).trans ?_
    cases effect with
    | allocated slots =>
      change b.total + 1 + (Effect.allocations log).length =
        b.total + ((Effect.allocations log).length + 1)
      omega
    | _ => rfl

theorem Blocks.afterAll_append (log log' : List (Effect α)) (b : Blocks) :
    b.afterAll (log ++ log') = (b.afterAll log).afterAll log' :=
  List.foldl_append

/-! ## Rings -/

theorem Batch.toList_take_prefix (n : Nat) (b : Batch α) : (b.take n).toList <+: b.toList := by
  have fewer : List.range (min n b.count) <+: List.range b.count := by
    rw [← List.take_range]
    exact List.take_prefix _ _
  exact fewer.filterMap b.entry

namespace Ring

variable {k : EntryKind α} {capacity : Nat} {log : List (Effect α)}

theorem uses_allocate (k : EntryKind α) (capacity : Nat) : Uses (k.allocate capacity) 0
    (k.blocksFor capacity) := by
  unfold EntryKind.allocate EntryKind.blocksFor
  split <;> rfl

theorem uses_free (k : EntryKind α) (capacity : Nat) :
    Uses (k.free capacity) (k.blocksFor capacity) 0 := by
  unfold EntryKind.free EntryKind.blocksFor
  split
  · rfl
  · simp [Uses, Effect.inUse, Effect.use]

/-- A new block is taken before the old one is given back. -/
theorem uses_replace (old new : Nat) :
    Uses (k.allocate new ++ k.free old) (k.blocksFor old) (k.blocksFor new) := by
  have taken := (uses_allocate k new).frame (k.blocksFor old)
  have given := (uses_free k old).frame (k.blocksFor new)
  rw [zero_add] at taken given
  rw [add_comm] at taken
  exact taken.append given

theorem uses_reported (event : Event) (blocks : Multiset Nat) :
    Uses [Effect.reported (α := α) event] blocks blocks :=
  .idle ⟨rfl, rfl⟩ blocks

theorem Birth.uses (birth : Birth k capacity log) : Uses log 0 (k.blocksFor capacity) := by
  have taken := uses_allocate k capacity
  cases birth with
  | empty => exact taken.append (uses_reported _ _)
  | configured policy => exact (uses_reported _ _).append (taken.append (uses_reported _ _))
  | filled copies => exact taken.append (.idle ⟨rfl, rfl⟩ _)
  | copied copies => exact ((Uses.idle ⟨rfl, rfl⟩ _).append taken).append (uses_reported _ _)

theorem Stillbirth.uses (still : Stillbirth k log) : Uses log 0 0 := by
  cases still with
  | plain plain => exact .plain plain _
  | configured => exact uses_reported _ _
  | filling capacity copies a =>
    exact (((uses_allocate k capacity).append (.idle ⟨rfl, rfl⟩ _)).append
      (uses_free k capacity)).append
      (.idle ⟨rfl, rfl⟩ _)

theorem Turn.uses {r r' : Ring α} {evictions : Nat} (turn : r.Turn k log r' evictions) :
    Uses log (k.blocksFor r.capacity) (k.blocksFor r'.capacity) := by
  cases turn with
  | quiet same plain =>
    rw [same]
    exact .plain plain _
  | evicting same plain =>
    rw [same]
    exact .idle ⟨plain.allocations, plain.releases⟩ _
  | timedOut => exact .idle ⟨rfl, rfl⟩ _
  | grown larger same =>
    rw [same]
    exact (uses_replace r.capacity _).append (uses_reported _ _)
  | cleared same entries =>
    rw [same, List.append_assoc]
    exact (Uses.idle ⟨rfl, rfl⟩ _).append (uses_replace r.capacity r.capacity)
  | notCleared => exact .idle ⟨rfl, rfl⟩ _

theorem release_uses (r : Ring α) : Uses (r.release k).2 (k.blocksFor r.capacity) 0 :=
  (Uses.idle ⟨rfl, rfl⟩ _).append (uses_free k r.capacity)

/-- What is done when a ring goes: its unread entries are dropped, oldest first, and then its block
is given back. When an entry breaks off, those behind it are not dropped. -/
structure GoesInOrder (k : EntryKind α) (r : Ring α) (fault : Option Fault)
    (log : List (Effect α)) : Prop where
  entries : ∃ dropped, log = .dropped dropped :: k.free r.capacity ∧ dropped.toList <+: r.unread ∧
    (fault = none → dropped.toList = r.unread)
  fault : k.dropFails = none → fault = none

theorem release_goesInOrder (k : EntryKind α) (r : Ring α) :
    r.GoesInOrder k (r.release k).1 (r.release k).2 := by
  refine ⟨⟨(k.dropAll r.unreadBatch).dropped, rfl, ?_⟩,
    fun drops => by rw [release, k.dropAll_eq drops]⟩
  simp only [release, EntryKind.dropAll]
  split
  · exact ⟨List.prefix_rfl, fun _ => rfl⟩
  · split
    · exact ⟨List.prefix_rfl, fun _ => rfl⟩
    · exact ⟨Batch.toList_take_prefix _ _, by rintro ⟨⟩⟩

/-! ## Rings of entries without content -/

section ZeroSized

variable (empty : k.zeroSized = true)

include empty

theorem allocate_idle : Effect.IsIdle (k.allocate capacity) := by
  rw [EntryKind.allocate, if_pos empty]
  exact .nil

theorem free_idle : Effect.IsIdle (k.free capacity) := by
  rw [EntryKind.free, if_pos empty]
  exact .nil

theorem Birth.idle (birth : Birth k capacity log) : Effect.IsIdle log := by
  have taken : Effect.IsIdle (k.allocate capacity) := allocate_idle empty
  cases birth with
  | empty => exact taken.append ⟨rfl, rfl⟩
  | configured policy =>
    have announced : Effect.IsIdle [Effect.reported (α := α) (.queueConfigured capacity policy)] :=
      ⟨rfl, rfl⟩
    exact announced.append (taken.append ⟨rfl, rfl⟩)
  | filled copies => exact taken.append ⟨rfl, rfl⟩
  | copied copies => exact .append (.append ⟨rfl, rfl⟩ taken) ⟨rfl, rfl⟩

theorem Stillbirth.idle (still : Stillbirth k log) : Effect.IsIdle log := by
  cases still with
  | plain plain => exact plain.idle
  | configured => exact ⟨rfl, rfl⟩
  | filling capacity copies a =>
    exact (((allocate_idle empty).append ⟨rfl, rfl⟩).append (free_idle empty)).append ⟨rfl, rfl⟩

theorem Turn.idle {r r' : Ring α} {evictions : Nat} (turn : r.Turn k log r' evictions) :
    Effect.IsIdle log := by
  cases turn with
  | quiet same plain => exact plain.idle
  | evicting same plain => exact ⟨plain.allocations, plain.releases⟩
  | timedOut => exact ⟨rfl, rfl⟩
  | grown larger same => exact ((allocate_idle empty).append (free_idle empty)).append ⟨rfl, rfl⟩
  | cleared same entries =>
    exact (Effect.IsIdle.append ⟨rfl, rfl⟩ (allocate_idle empty)).append (free_idle empty)
  | notCleared => exact ⟨rfl, rfl⟩

theorem release_idle (r : Ring α) : Effect.IsIdle (r.release k).2 :=
  .append ⟨rfl, rfl⟩ (free_idle empty)

end ZeroSized

end Ring

end RingQueue
