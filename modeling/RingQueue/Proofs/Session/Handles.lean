import RingQueue.Proofs.Ring.Blocks
import RingQueue.Proofs.Session.Histories

/-!
The handles of a split queue.

There is at most one consumer, which no push keeps, and no owner (`Channel.IsSplit`). The consumer
is the last handle exactly when no producer is left (`Channel.IsSplit.isSole_iff`). A queue by
itself makes a session of one channel, in which calls and dropped keys are computed.
-/
namespace RingQueue.Session

variable {α : Type}

/-! ## Handles -/

namespace Handle

/-- A key that does not lead to a handle can be taken from it without effect. -/
theorem without_of_not_mem {h : Handle} {key : Key} (out : key ∉ h.keys) (reached : h.keys ≠ []) :
    h.without key = some h := by
  rw [ne_eq, keys_eq_nil_iff] at reached
  cases key with
  | name name =>
    have other : h.name ≠ some name := fun here => out ((name_eq_iff h name).mp here)
    simp only [without, if_neg other]
    rw [if_neg reached]
  | push number =>
    have other : number ∉ h.keptBy := fun here => out (by simp [keys, here])
    simp only [without, List.erase_of_not_mem other]
    rw [if_neg reached]

/-- A handle that goes with its name is kept by no push. -/
theorem keptBy_of_without_name {h : Handle} {name : String} (gone : h.without (.name name) = none) :
    h.keptBy = [] := by
  simp only [without, ite_eq_left_iff, reduceCtorEq, imp_false, not_not, Bool.and_eq_true,
    List.isEmpty_iff] at gone
  have kept := gone.2
  split at kept <;> exact kept

/-- What is left of a handle has its role, is kept by no other push, and has a key. -/
theorem without_eq_some {h rest : Handle} {key : Key} (left : h.without key = some rest) :
    rest.role = h.role ∧ (∀ number ∈ rest.keptBy, number ∈ h.keptBy) ∧ rest.keys ≠ [] := by
  simp only [without, Option.ite_none_left_eq_some] at left
  obtain ⟨reached, same⟩ := left
  obtain rfl := Option.some.inj same
  rw [ne_eq, keys_eq_nil_iff]
  refine ⟨?_, ?_, reached⟩
  · cases key with
    | name name =>
      dsimp only
      split <;> rfl
    | push number => rfl
  · cases key with
    | name name =>
      dsimp only
      split <;> exact fun number member => member
    | push number => exact fun other member => List.mem_of_mem_erase member

end Handle

/-- Producers and at most one consumer, which no push keeps; each of them can be found. -/
structure Channel.IsSplit (c : Channel α) : Prop where
  shared : ∀ h ∈ c.handles, h.role ≠ .owner
  free : ∀ h ∈ c.handles, h.role = .consumer → h.keptBy = []
  single : c.handles.countP (·.role = .consumer) ≤ 1
  reached : ∀ h ∈ c.handles, h.keys ≠ []

/-- Some producer has not been dropped yet. -/
def Channel.HasProducer (c : Channel α) : Prop := ∃ h ∈ c.handles, h.role = .producer

namespace Channel.IsSplit

variable {c : Channel α} {h : Handle} {key : Key}

/-- The consumer is the only handle when all producers are gone. -/
theorem isSole_iff (split : c.IsSplit) (member : h ∈ c.handles) (consumer : h.role = .consumer) :
    c.isSole = true ↔ ¬ c.HasProducer := by
  rw [isSole, decide_eq_true_eq]
  constructor
  · rintro alone ⟨other, otherMember, producer⟩
    obtain ⟨only, handles⟩ := List.length_eq_one_iff.mp alone
    rw [handles, List.mem_singleton] at member otherMember
    rw [otherMember, ← member, consumer] at producer
    cases producer
  · intro gone
    have consumers : c.handles.countP (·.role = .consumer) = c.handles.length := by
      rw [List.countP_eq_length]
      intro other otherMember
      cases role : other.role with
      | owner => exact absurd role (split.shared other otherMember)
      | producer => exact absurd ⟨other, otherMember, role⟩ gone
      | consumer => rfl
    have some_handle : 0 < c.handles.length := List.length_pos_of_mem member
    have single := split.single
    omega

/-- Other rings do not count. -/
theorem with_ring (split : c.IsSplit) (ring : Ring α) : Channel.IsSplit { c with ring } :=
  ⟨split.shared, split.free, split.single, split.reached⟩

theorem without (split : c.IsSplit)
    (key : Key) : Channel.IsSplit { c with handles := c.without key } := by
  refine ⟨?_, ?_, ?_, ?_⟩
  · intro rest member
    obtain ⟨old, oldMember, left⟩ := List.mem_filterMap.mp member
    rw [(Handle.without_eq_some left).1]
    exact split.shared old oldMember
  · intro rest member consumer
    obtain ⟨old, oldMember, left⟩ := List.mem_filterMap.mp member
    obtain ⟨role, kept, -⟩ := Handle.without_eq_some left
    have none_kept := split.free old oldMember (role ▸ consumer)
    refine List.eq_nil_iff_forall_not_mem.mpr fun number there => ?_
    have here := kept number there
    rw [none_kept] at here
    cases here
  · refine Nat.le_trans ?_ split.single
    rw [Channel.without, List.countP_filterMap]
    refine List.countP_mono_left fun old _ counted => ?_
    cases left : old.without key with
    | none => simp [left] at counted
    | some rest => simpa [left, (Handle.without_eq_some left).1] using counted
  · intro rest member
    obtain ⟨old, -, left⟩ := List.mem_filterMap.mp member
    exact (Handle.without_eq_some left).2.2

/-- A further producer. -/
theorem with_producer (split : c.IsSplit) (name : String) :
    Channel.IsSplit { c with handles := c.handles ++ [.named name .producer] } := by
  refine ⟨?_, ?_, ?_, ?_⟩
  · exact List.forall_mem_append.mpr ⟨split.shared, List.forall_mem_singleton.mpr nofun⟩
  · exact List.forall_mem_append.mpr ⟨split.free, List.forall_mem_singleton.mpr nofun⟩
  · change (c.handles ++ [Handle.named name .producer]).countP _ ≤ 1
    rw [List.countP_append]
    exact split.single
  · exact List.forall_mem_append.mpr ⟨split.reached, List.forall_mem_singleton.mpr nofun⟩

/-- A push keeps a producer. -/
theorem keeping (split : c.IsSplit)
    (producers : ∀ h ∈ c.handles, h.answersTo key = true → h.role = .producer) (number : Nat) :
    (c.keeping key number).IsSplit := by
  have role (h : Handle) : (if h.answersTo key then h.kept number else h).role = h.role := by
    split <;> rfl
  refine ⟨?_, ?_, ?_, ?_⟩
  · intro kept member
    obtain ⟨old, oldMember, rfl⟩ := List.mem_map.mp member
    rw [role]
    exact split.shared old oldMember
  · intro kept member consumer
    obtain ⟨old, oldMember, rfl⟩ := List.mem_map.mp member
    rw [role] at consumer
    split
    · rename_i here
      rw [producers old oldMember here] at consumer
      cases consumer
    · exact split.free old oldMember consumer
  · change (c.handles.map _).countP _ ≤ 1
    rw [List.countP_map]
    refine Nat.le_trans (List.countP_mono_left fun old _ counted => ?_) split.single
    simpa [role] using counted
  · intro kept member
    obtain ⟨old, oldMember, rfl⟩ := List.mem_map.mp member
    split
    · simp [Handle.keys, Handle.kept]
    · exact split.reached old oldMember

/-- When the last key goes, there was only one handle. -/
theorem handles_eq_singleton (split : c.IsSplit) (distinct : c.keys.Nodup) (member : h ∈ c.handles)
    (here : key ∈ h.keys) (last : c.without key = []) : c.handles = [h] := by
  have all (other : Handle) (otherMember : other ∈ c.handles) : key ∈ other.keys := by
    by_contra out
    have kept := Handle.without_of_not_mem out (split.reached other otherMember)
    have left : other ∈ c.without key := List.mem_filterMap.mpr ⟨other, otherMember, kept⟩
    rw [last] at left
    cases left
  have apart := (List.nodup_flatMap.mp distinct).2
  cases handles : c.handles with
  | nil =>
    rw [handles] at member
    cases member
  | cons first rest =>
    have firstMember : first ∈ c.handles := by simp [handles]
    have none_else : rest = [] := by
      refine List.eq_nil_iff_forall_not_mem.mpr fun other otherMember => ?_
      rw [handles, List.pairwise_cons] at apart
      exact apart.1 other otherMember (all first firstMember)
        (all other (by rw [handles]; exact List.mem_cons_of_mem _ otherMember))
    rw [none_else, eq_of_shared distinct member here firstMember (all first firstMember)]

end Channel.IsSplit

end RingQueue.Session
