import Mathlib.Data.List.Flatten
import RingQueue.Proofs.Ring.Conservation
import RingQueue.Proofs.Session.Keys

/-!
What holds of the channels of a session between its actions.

The ring of each channel is at rest and counts as many admissions as there are pushes under way that
keep one of its handles. An owner is the only handle of its channel. Giving up a key keeps all that;
the entries of a ring that goes with its last key are dropped.
-/
namespace RingQueue.Session

variable {α : Type}

/-! ## Pushes under way -/

def pushCount (keys : List Key) : Nat := keys.countP Key.isPush

theorem pushCount_append (keys others : List Key) :
    pushCount (keys ++ others) = pushCount keys + pushCount others :=
  List.countP_append

theorem pushCount_perm {keys others : List Key} (perm : keys.Perm others) :
    pushCount keys = pushCount others :=
  perm.countP_eq _

/-- Without one of its keys a handle is kept by one push less, if that key is a push. -/
theorem pushCount_without {keys : List Key} (distinct : keys.Nodup) {key : Key}
    (member : key ∈ keys) :
    pushCount (keys.filter (· ≠ key)) + pushCount [key] = pushCount keys := by
  have perm := (List.perm_cons_erase member).symm
  rw [← pushCount_perm perm, distinct.erase_eq_filter, ← pushCount_append]
  refine pushCount_perm ?_
  simp [bne, beq_eq_decide]

theorem filter_ne_of_not_mem {keys : List Key} {key : Key} (out : key ∉ keys) :
    keys.filter (· ≠ key) = keys := by
  refine List.filter_eq_self.mpr fun other member => ?_
  rw [decide_eq_true_eq]
  rintro rfl
  exact out member

theorem pushCount_without_name (keys : List Key) (name : String) :
    pushCount (keys.filter (· ≠ .name name)) = pushCount keys := by
  simp only [pushCount, List.countP_filter]
  refine List.countP_congr fun key _ => ?_
  cases key <;> simp [Key.isPush]

theorem pushCount_of_free {handles : List Handle} (free : ∀ h ∈ handles, h.keptBy = []) :
    pushCount (handleKeys handles) = 0 := by
  rw [handleKeys_of_free free, pushCount, List.countP_map, List.countP_eq_zero]
  simp [Key.isPush]

/-! ## Channels -/

/-- The ring of the channel is at rest with so many admissions, and an owner has it for itself. -/
structure Channel.Sound (c : Channel α) (reserved : Nat) : Prop where
  rest : ∃ capacity entries, c.ring.Holds capacity entries reserved
  sole : ∀ h ∈ c.handles, h.role = .owner → c.handles = [h]
  reached : c.keys ≠ []

/-- What holds of all channels between two actions. -/
structure Consistent (channels : List (Channel α)) : Prop where
  each : ∀ c ∈ channels, c.Sound (pushCount c.keys)
  distinct : (keysOf channels).Nodup

/-- The same when a key is about to be given up, which no ring counts any more. -/
structure ConsistentBut (key : Key) (channels : List (Channel α)) : Prop where
  each : ∀ c ∈ channels, c.Sound (pushCount (c.keys.filter (· ≠ key)))
  distinct : (keysOf channels).Nodup

/-- The unread entries of all rings. -/
def unreadIn (channels : List (Channel α)) : Multiset α :=
  (channels.map fun c => (c.ring.unread : Multiset α)).sum

@[simp] theorem unreadIn_nil : unreadIn ([] : List (Channel α)) = 0 := rfl

@[simp] theorem unreadIn_cons (c : Channel α) (channels : List (Channel α)) :
    unreadIn (c :: channels) = c.ring.unread + unreadIn channels := by
  simp [unreadIn]

@[simp] theorem unreadIn_append (channels others : List (Channel α)) :
    unreadIn (channels ++ others) = unreadIn channels + unreadIn others := by
  simp [unreadIn]

/-- A ring does not change what leads to its channel. -/
theorem Located.keysOf_ring {key : Key} {channels before after : List (Channel α)} {c : Channel α}
    (place : Located key channels before c after) (ring : Ring α) :
    keysOf (before ++ { c with ring } :: after) = keysOf channels := by
  rw [place.split, keysOf_append, keysOf_append, keysOf_cons, keysOf_cons]
  rfl

namespace Consistent

variable {key : Key} {channels before after : List (Channel α)} {c : Channel α}

theorem nil : Consistent ([] : List (Channel α)) := ⟨nofun, List.nodup_nil⟩

/-- Rings do not count names. -/
theorem but_name (h : Consistent channels) (name : String) :
    ConsistentBut (.name name) channels where
  each := by
    intro c member
    rw [pushCount_without_name]
    exact h.each c member
  distinct := h.distinct

theorem sublist (h : Consistent channels) {others : List (Channel α)}
    (part : others.Sublist channels) :
    Consistent others where
  each := fun c member => h.each c (part.subset member)
  distinct := h.distinct.sublist (List.Sublist.flatMap part Channel.keys)

/-- A channel can be changed as long as it gets no new keys. -/
theorem replace (h : Consistent channels) (place : Located key channels before c after)
    {c' : Channel α} (sound : c'.Sound (pushCount c'.keys)) (keys : c'.keys.Sublist c.keys) :
    Consistent (before ++ c' :: after) where
  each := by
    intro other member
    rcases List.mem_append.mp member with earlier | later
    · exact h.each other (place.split ▸ List.mem_append_left _ earlier)
    · rcases List.mem_cons.mp later with rfl | later
      · exact sound
      · exact h.each other (place.split ▸ List.mem_append_right _ (List.mem_cons_of_mem _ later))
  distinct := by
    refine h.distinct.sublist ?_
    rw [place.split, keysOf_append, keysOf_append, keysOf_cons, keysOf_cons]
    exact (keys.append_right _).append_left _

/-- The ring of one channel no longer counts the key that leads there. -/
theorem uncount (h : Consistent channels) (place : Located key channels before c after)
    {ring : Ring α} (sound : Channel.Sound { c with ring } (pushCount (c.keys.filter (· ≠ key)))) :
    ConsistentBut key (before ++ { c with ring } :: after) where
  each := by
    intro other member
    have elsewhere (member : other ∈ channels) (out : key ∉ other.keys) :
        other.Sound (pushCount (other.keys.filter (· ≠ key))) := by
      rw [filter_ne_of_not_mem out]
      exact h.each other member
    rcases List.mem_append.mp member with earlier | later
    · exact elsewhere (place.split ▸ List.mem_append_left _ earlier)
        fun here => place.not_before (List.mem_flatMap.mpr ⟨other, earlier, here⟩)
    · rcases List.mem_cons.mp later with rfl | later
      · exact sound
      · exact elsewhere (place.split ▸ List.mem_append_right _ (List.mem_cons_of_mem _ later))
          fun here => place.not_after (List.mem_flatMap.mpr ⟨other, later, here⟩)
  distinct := by
    rw [place.keysOf_ring]
    exact h.distinct

end Consistent

/-! ## Giving up handles -/

/-- What giving up keys comes to: the other keys stay, and the rings that go drop their entries. -/
structure Dropped.Settles (d : Dropped α) (channels : List (Channel α)) (stays : Key → Bool) :
    Prop where
  consistent : Consistent d.channels
  keys : keysOf d.channels = (keysOf channels).filter stays
  unread : unreadIn channels = unreadIn d.channels + Effect.drops d.effects
  clones : Effect.clones d.effects = []
  fault : d.fault = none

theorem Channel.keys_without {c : Channel α} (distinct : c.keys.Nodup) (key : Key) :
    handleKeys (c.without key) = c.keys.filter (· ≠ key) :=
  handleKeys_without c.handles distinct key

/-- A handle that is left over comes from one of the same role, and has a key. -/
theorem Channel.mem_without {c : Channel α} (distinct : c.keys.Nodup) {key : Key} {h : Handle}
    (member : h ∈ c.without key) :
    ∃ old ∈ c.handles, old.without key = some h ∧ h.role = old.role ∧ h.keys ≠ [] := by
  obtain ⟨old, oldMember, left⟩ := List.mem_filterMap.mp member
  obtain ⟨rest, -, role, without⟩ :=
    old.without_eq ((List.nodup_flatMap.mp distinct).1 old oldMember) key
  rw [without] at left
  split at left
  · cases left
  · rename_i keys
    cases left
    exact ⟨old, oldMember, by rw [without, if_neg keys], role, keys⟩

/-- The channel without a key, if that leaves it a handle. -/
theorem Channel.Sound.without {c : Channel α} {key : Key} {reserved : Nat}
    (sound : c.Sound reserved) (distinct : c.keys.Nodup) (left : c.without key ≠ []) :
    Channel.Sound { c with handles := c.without key } reserved where
  rest := sound.rest
  sole := by
    intro h member owner
    obtain ⟨old, oldMember, kept, role, -⟩ := Channel.mem_without distinct member
    -- The old handle was the only one, so the new one is.
    have alone := sound.sole old oldMember (role ▸ owner)
    change c.handles.filterMap (·.without key) = [h]
    rw [alone]
    simp [kept]
  reached := by
    obtain ⟨h, member⟩ := List.exists_mem_of_ne_nil _ left
    obtain ⟨-, -, -, -, keys⟩ := Channel.mem_without distinct member
    obtain ⟨other, answers⟩ := List.exists_mem_of_ne_nil _ keys
    exact List.ne_nil_of_mem (List.mem_flatMap.mpr ⟨h, member, answers⟩)

theorem Located.keysOf_without {key : Key} {channels before after : List (Channel α)}
    {c : Channel α} (place : Located key channels before c after) (distinct : c.keys.Nodup) :
    (keysOf channels).filter (· ≠ key) =
      keysOf before ++ (handleKeys (c.without key) ++ keysOf after) := by
  rw [place.split, keysOf_append, keysOf_cons, List.filter_append, List.filter_append,
    filter_ne_of_not_mem place.not_before, filter_ne_of_not_mem place.not_after,
    Channel.keys_without distinct]

namespace ConsistentBut

variable {key : Key} {channels before after : List (Channel α)} {c : Channel α} {k : EntryKind α}

/-- Channels to which the key does not lead count all their keys. -/
theorem others (h : ConsistentBut key channels) {others : List (Channel α)}
    (part : others.Sublist channels) (out : key ∉ keysOf others) : Consistent others where
  each := by
    intro c member
    have unreached : key ∉ c.keys := fun here => out (List.mem_flatMap.mpr ⟨c, member, here⟩)
    rw [← filter_ne_of_not_mem unreached]
    exact h.each c (part.subset member)
  distinct := h.distinct.sublist (part.flatMap Channel.keys)

/-- With its last key a ring goes, and drops its entries. -/
theorem dropHandle_last (h : ConsistentBut key channels)
    (place : Located key channels before c after) (drops : k.dropFails = none)
    (last : c.without key = []) : (dropHandle k key channels).Settles channels (· ≠ key) := by
  obtain ⟨capacity, entries, holds⟩ := (h.each c place.mem).rest
  have distinct : c.keys.Nodup := (List.nodup_flatMap.mp h.distinct).1 c place.mem
  have split := place.split
  have nowhere : key ∉ keysOf (before ++ after) := by
    rw [keysOf_append, List.mem_append, not_or]
    exact ⟨place.not_before, place.not_after⟩
  rw [place.dropHandle k, if_pos (by rw [last]; rfl)]
  refine ⟨h.others ?_ nowhere, ?_, ?_, ?_, ?_⟩
  · rw [split]
    exact (List.sublist_cons_self c after).append_left before
  · rw [place.keysOf_without distinct, last]
    exact keysOf_append before after
  · rw [split, (holds.drops_oldest_first drops).2.1, unreadIn_append, unreadIn_append,
      unreadIn_cons, holds.unread]
    abel
  · simp [Ring.release, k.dropAll_eq drops]
  · simp [Ring.release, k.dropAll_eq drops]

/-- While there are other keys only the handles change. -/
theorem dropHandle_not_last (h : ConsistentBut key channels)
    (place : Located key channels before c after) (left : c.without key ≠ []) :
    (dropHandle k key channels).Settles channels (· ≠ key) := by
  have distinct : c.keys.Nodup := (List.nodup_flatMap.mp h.distinct).1 c place.mem
  have split := place.split
  have keys : keysOf (before ++ { c with handles := c.without key } :: after) =
      (keysOf channels).filter (· ≠ key) := by
    rw [place.keysOf_without distinct, keysOf_append, keysOf_cons]
    rfl
  have sound := (h.each c place.mem).without distinct left
  rw [place.dropHandle k, if_neg (by rwa [List.isEmpty_iff])]
  refine ⟨⟨?_, ?_⟩, keys, ?_, rfl, rfl⟩
  · intro other member
    rcases List.mem_append.mp member with earlier | later
    · have part : before.Sublist channels := split ▸ List.sublist_append_left before _
      exact (h.others part place.not_before).each other earlier
    · rcases List.mem_cons.mp later with rfl | later
      · rw [← Channel.keys_without distinct] at sound
        exact sound
      · have part : after.Sublist channels :=
          split ▸ (List.sublist_cons_self c after).trans (List.sublist_append_right before _)
        exact (h.others part place.not_after).each other later
  · rw [keys]
    exact h.distinct.filter _
  · rw [split, unreadIn_append, unreadIn_append, unreadIn_cons, unreadIn_cons]
    simp

theorem dropHandle (h : ConsistentBut key channels) (drops : k.dropFails = none) :
    (dropHandle k key channels).Settles channels (· ≠ key) := by
  by_cases reached : key ∈ keysOf channels
  · obtain ⟨before, c, after, place⟩ := exists_located h.distinct reached
    by_cases last : c.without key = []
    · exact h.dropHandle_last place drops last
    · exact h.dropHandle_not_last place last
  · rw [dropHandle_of_not_mem k reached]
    exact ⟨h.others (List.Sublist.refl _) reached, (filter_ne_of_not_mem reached).symm, by simp,
      rfl,
      rfl⟩

end ConsistentBut

/-- Several names are given up one after the other. -/
theorem Consistent.dropHandles {channels : List (Channel α)} {k : EntryKind α}
    (h : Consistent channels) (drops : k.dropFails = none) (names : List String) :
    (dropHandles k names channels).Settles channels (· ∉ names.map Key.name) := by
  induction names generalizing channels with
  | nil => exact ⟨h, by simp [Session.dropHandles], by simp [Session.dropHandles], rfl, rfl⟩
  | cons name names ih =>
    have first := (h.but_name name).dropHandle drops
    have later := ih first.consistent
    refine ⟨later.consistent, ?_, ?_, ?_, ?_⟩
    · rw [Session.dropHandles, later.keys, first.keys, List.filter_filter]
      refine List.filter_congr fun key _ => ?_
      simp [Bool.and_comm]
    · rw [Session.dropHandles, first.unread, later.unread, Effect.drops_append, ← Multiset.coe_add]
      abel
    · simp [Session.dropHandles, first.clones, later.clones]
    · simp [Session.dropHandles, first.fault, later.fault]

end RingQueue.Session
