import Mathlib.Data.List.Nodup
import Mathlib.Data.List.Pairwise
import Mathlib.Tactic.Common
import RingQueue.Session.Run

/-!
Keys: names, and pushes that are under way.

Each key leads to one handle. What an action does to the handles is told by the keys: it takes some
away, adds some, and leaves the others where they are.
-/
namespace RingQueue.Session

variable {α : Type}

/-- Whether the key is a push that is under way. -/
def Key.isPush : Key → Bool
  | .name _ => false
  | .push _ => true

/-! ## Handles -/

namespace Handle

/-- The keys that lead to a handle. -/
def keys (h : Handle) : List Key := h.name.toList.map .name ++ h.keptBy.map .push

theorem answersTo_iff (h : Handle) (key : Key) : h.answersTo key = true ↔ key ∈ h.keys := by
  cases key <;> simp [answersTo, keys]

@[simp] theorem keys_named (name : String) (role : Role) : (named name role).keys = [.name name] :=
  rfl

theorem name_eq_iff (h : Handle) (name : String) : h.name = some name ↔ .name name ∈ h.keys := by
  simp [keys]

theorem keys_eq_nil_iff (h : Handle) :
    h.keys = [] ↔ (h.name.isNone && h.keptBy.isEmpty) = true := by
  simp [keys]

/-- A push that keeps a handle adds its key to those of the handle. -/
theorem keys_kept (h : Handle) (number : Nat) :
    (h.kept number).keys.Perm (.push number :: h.keys) := by
  simp only [kept, keys, List.map_cons]
  exact List.perm_middle

/-- What is left of a handle without a key has all other keys, and is given up if there are none. -/
theorem without_eq (h : Handle) (distinct : h.keys.Nodup) (key : Key) :
    ∃ rest : Handle, rest.keys = h.keys.filter (· ≠ key) ∧ rest.role = h.role ∧
      h.without key = if rest.keys = [] then none else some rest := by
  cases key with
  | name name =>
    refine ⟨if h.name = some name then { h with name := none } else h, ?_, ?_, ?_⟩
    · split
      · simp [keys, *, List.filter_map, Function.comp_def]
      · rename_i other
        refine (List.filter_eq_self.mpr ?_).symm
        rintro key member
        rw [decide_eq_true_eq]
        rintro rfl
        exact other ((name_eq_iff h name).mpr member)
    · split <;> rfl
    · simp only [without, keys_eq_nil_iff]
  | push number =>
    refine ⟨{ h with keptBy := h.keptBy.erase number }, ?_, rfl, ?_⟩
    · have kept : h.keptBy.Nodup := (List.nodup_append.mp distinct).2.1.of_map _
      simp [keys, List.filter_append, List.filter_map, Function.comp_def, kept.erase_eq_filter,
        bne, beq_eq_decide]
    · simp only [without, keys_eq_nil_iff]

end Handle

/-- The keys that lead to one of the handles. -/
def handleKeys (handles : List Handle) : List Key := handles.flatMap Handle.keys

@[simp] theorem handleKeys_nil : handleKeys [] = [] := rfl

@[simp] theorem handleKeys_cons (h : Handle) (handles : List Handle) :
    handleKeys (h :: handles) = h.keys ++ handleKeys handles := rfl

@[simp] theorem handleKeys_append (handles others : List Handle) :
    handleKeys (handles ++ others) = handleKeys handles ++ handleKeys others :=
  List.flatMap_append

/-- Handles that no push keeps have their names only. -/
theorem handleKeys_of_free {handles : List Handle} (free : ∀ h ∈ handles, h.keptBy = []) :
    handleKeys handles = (handles.filterMap (·.name)).map Key.name := by
  induction handles with
  | nil => rfl
  | cons h rest ih =>
    rw [handleKeys_cons, ih fun other member => free other (List.mem_cons_of_mem h member),
      Handle.keys, free h List.mem_cons_self, List.filterMap_cons]
    cases h.name <;> simp

/-- Giving up a key leaves the handles that have other keys. -/
theorem handleKeys_without (handles : List Handle) (distinct : (handleKeys handles).Nodup)
    (key : Key) :
    handleKeys (handles.filterMap (·.without key)) = (handleKeys handles).filter (· ≠ key) := by
  induction handles with
  | nil => rfl
  | cons h rest ih =>
    rw [handleKeys_cons, List.nodup_append] at distinct
    obtain ⟨left, keys, -, without⟩ := h.without_eq distinct.1 key
    have others := ih distinct.2.1
    rw [handleKeys_cons, List.filter_append, ← keys, ← others, List.filterMap_cons, without]
    by_cases gone : left.keys = []
    · rw [if_pos gone, gone, List.nil_append]
    · rw [if_neg gone, handleKeys_cons]

theorem answersTo_of_not_mem {handles : List Handle} {key : Key} (out : key ∉ handleKeys handles)
    {h : Handle} (member : h ∈ handles) : h.answersTo key = false := by
  rw [Bool.eq_false_iff]
  intro answers
  exact out (List.mem_flatMap.mpr ⟨h, member, (h.answersTo_iff key).mp answers⟩)

/-- A push that keeps the handle of a key adds its own key. -/
theorem handleKeys_kept (handles : List Handle) (distinct : (handleKeys handles).Nodup) {key : Key}
    (reached : key ∈ handleKeys handles) (number : Nat) :
    (handleKeys (handles.map fun h => if h.answersTo key then h.kept number else h)).Perm
      (.push number :: handleKeys handles) := by
  induction handles with
  | nil => cases reached
  | cons h rest ih =>
    rw [handleKeys_cons, List.nodup_append] at distinct
    obtain ⟨-, restDistinct, apart⟩ := distinct
    rw [List.map_cons, handleKeys_cons, handleKeys_cons]
    by_cases here : key ∈ h.keys
    · -- No other handle has the key.
      have out : key ∉ handleKeys rest := fun there => apart key here key there rfl
      have others : (rest.map fun h => if h.answersTo key then h.kept number else h) = rest := by
        refine (List.map_congr_left fun other member => ?_).trans (List.map_id rest)
        simp [answersTo_of_not_mem out member]
      rw [if_pos ((h.answersTo_iff key).mpr here), others]
      exact (h.keys_kept number).append_right _
    · have there : key ∈ handleKeys rest := by
        rw [handleKeys_cons] at reached
        exact (List.mem_append.mp reached).resolve_left here
      rw [if_neg (by rw [h.answersTo_iff]; exact here)]
      exact ((ih restDistinct there).append_left h.keys).trans List.perm_middle

/-! ## Channels -/

namespace Channel

/-- The keys that lead to a handle of the channel. -/
def keys (c : Channel α) : List Key := handleKeys c.handles

theorem isReached_iff (c : Channel α) (key : Key) : c.isReached key = true ↔ key ∈ c.keys := by
  simp [isReached, handle?, keys, handleKeys, Handle.answersTo_iff]

theorem isReached_eq_false (c : Channel α) (key : Key) :
    c.isReached key = false ↔ key ∉ c.keys := by
  rw [Bool.eq_false_iff, ne_eq, isReached_iff]

/-- The handle that a key leads to is one of the channel, and has the key. -/
theorem handle?_eq_some {c : Channel α} {key : Key} {h : Handle} (found : c.handle? key = some h) :
    h ∈ c.handles ∧ key ∈ h.keys := by
  rw [handle?] at found
  have answers := List.find?_some found
  exact ⟨List.mem_of_find?_eq_some found, (h.answersTo_iff key).mp answers⟩

end Channel

/-- The keys that lead to a handle of a session. -/
def keysOf (channels : List (Channel α)) : List Key := channels.flatMap Channel.keys

@[simp] theorem keysOf_nil : keysOf ([] : List (Channel α)) = [] := rfl

@[simp] theorem keysOf_cons (c : Channel α) (channels : List (Channel α)) :
    keysOf (c :: channels) = c.keys ++ keysOf channels := rfl

@[simp] theorem keysOf_append (channels others : List (Channel α)) :
    keysOf (channels ++ others) = keysOf channels ++ keysOf others :=
  List.flatMap_append

/-- The channels are those before `c`, `c`, to which the key leads, and those after `c`. -/
structure Located (key : Key) (channels before : List (Channel α)) (c : Channel α)
    (after : List (Channel α)) : Prop where
  split : channels = before ++ c :: after
  here : key ∈ c.keys
  not_before : key ∉ keysOf before
  not_after : key ∉ keysOf after

theorem isReached_of_not_mem {channels : List (Channel α)} {key : Key} (out : key ∉ keysOf channels)
    {c : Channel α} (member : c ∈ channels) : c.isReached key = false := by
  rw [Channel.isReached_eq_false]
  intro reached
  exact out (List.mem_flatMap.mpr ⟨c, member, reached⟩)

/-- A key leads to no channel before or after one to which it leads. -/
theorem located_of_split {channels before after : List (Channel α)} {c : Channel α}
    (distinct : (keysOf channels).Nodup) (split : channels = before ++ c :: after) {key : Key}
    (here : key ∈ c.keys) : Located key channels before c after := by
  rw [split, keysOf_append, keysOf_cons, List.nodup_append, List.nodup_append] at distinct
  obtain ⟨-, ⟨-, -, later⟩, earlier⟩ := distinct
  refine ⟨split, here, ?_, ?_⟩
  · exact fun twice => earlier key twice key (List.mem_append_left _ here) rfl
  · exact fun twice => later key here key twice rfl

/-- A key that leads to a handle leads to one channel only. -/
theorem exists_located {channels : List (Channel α)} (distinct : (keysOf channels).Nodup)
    {key : Key} (reached : key ∈ keysOf channels) : ∃ before c after, Located key channels
    before c after := by
  obtain ⟨c, member, here⟩ := List.mem_flatMap.mp reached
  obtain ⟨before, after, split⟩ := List.append_of_mem member
  exact ⟨before, c, after, located_of_split distinct split here⟩

theorem findChannel_isSome {channels : List (Channel α)} {key : Key}
    (reached : key ∈ keysOf channels) :
    ∃ found, findChannel key channels = some found := by
  obtain ⟨c, member, key⟩ := List.mem_flatMap.mp reached
  rw [← Option.isSome_iff_exists, findChannel, List.findSome?_isSome_iff]
  refine ⟨c, member, ?_⟩
  rw [Option.isSome_map]
  exact (c.isReached_iff _).mpr key

theorem findChannel_eq_some {channels : List (Channel α)} {key : Key} {c : Channel α} {h : Handle}
    (found : findChannel key channels = some (c, h)) :
    c ∈ channels ∧ h ∈ c.handles ∧ key ∈ h.keys := by
  obtain ⟨other, member, here⟩ := List.exists_of_findSome?_eq_some found
  obtain ⟨_, handle, same⟩ := Option.map_eq_some_iff.mp here
  cases same
  exact ⟨member, Channel.handle?_eq_some handle⟩

/-- No two of the lists to which the elements of a list lead share a key. -/
theorem eq_of_shared {β : Type} {keys : β → List Key} {all : List β}
    (distinct : (all.flatMap keys).Nodup) {key : Key} {b other : β} (member : b ∈ all)
    (here : key ∈ keys b) (otherMember : other ∈ all) (there : key ∈ keys other) : other = b := by
  by_contra different
  have symm : Std.Symm (Function.onFun List.Disjoint keys) :=
    ⟨fun _ _ apart _ there here => apart here there⟩
  exact (List.nodup_flatMap.mp distinct).2.forall otherMember member different there here

/-- A key is found where it leads. -/
theorem findChannel_of_mem {channels : List (Channel α)} (distinct : (keysOf channels).Nodup)
    {key : Key} {c : Channel α} {h : Handle} (member : c ∈ channels) (handle : h ∈ c.handles)
    (here : key ∈ h.keys) :
    findChannel key channels = some (c, h) := by
  have reached : key ∈ c.keys := List.mem_flatMap.mpr ⟨h, handle, here⟩
  obtain ⟨⟨c', h'⟩, found⟩ := findChannel_isSome (List.mem_flatMap.mpr ⟨c, member, reached⟩)
  obtain ⟨member', handle', here'⟩ := findChannel_eq_some found
  obtain rfl := eq_of_shared distinct member reached member'
    (List.mem_flatMap.mpr ⟨h', handle', here'⟩)
  have inside : c'.keys.Nodup := (List.nodup_flatMap.mp distinct).1 c' member
  obtain rfl := eq_of_shared inside handle here handle' here'
  exact found

/-- The channel that is found is the one to which the key leads. -/
theorem located_of_findChannel {channels : List (Channel α)} (distinct : (keysOf channels).Nodup)
    {key : Key} {c : Channel α} {h : Handle} (found : findChannel key channels = some (c, h)) :
    ∃ before after, Located key channels before c after := by
  obtain ⟨member, handle, answers⟩ := findChannel_eq_some found
  obtain ⟨before, after, split⟩ := List.append_of_mem member
  exact ⟨before, after, located_of_split distinct split (List.mem_flatMap.mpr ⟨h, handle, answers⟩)⟩

namespace Located

variable {key : Key} {channels before after : List (Channel α)} {c : Channel α}

theorem map (h : Located key channels before c after) (f : Channel α → Channel α) :
    (channels.map fun c => if c.isReached key then f c else c) = before ++ f c :: after := by
  have others {rest : List (Channel α)} (out : key ∉ keysOf rest) :
      (rest.map fun c => if c.isReached key then f c else c) = rest := by
    refine (List.map_congr_left fun other member => ?_).trans (List.map_id rest)
    simp [isReached_of_not_mem out member]
  rw [h.split, List.map_append, List.map_cons, others h.not_before, others h.not_after,
    if_pos ((c.isReached_iff key).mpr h.here)]

theorem setRing (h : Located key channels before c after) (ring : Ring α) :
    setRing key ring channels = before ++ { c with ring } :: after :=
  h.map fun c => { c with ring }

theorem removeChannel (h : Located key channels before c after) :
    removeChannel key channels = before ++ after := by
  have others {rest : List (Channel α)} (out : key ∉ keysOf rest) :
      (rest.filter fun c => !c.isReached key) = rest := by
    refine List.filter_eq_self.mpr fun other member => ?_
    simp [isReached_of_not_mem out member]
  have here := (c.isReached_iff key).mpr h.here
  rw [h.split, Session.removeChannel, List.filter_append, others h.not_before, List.filter_cons,
    others h.not_after]
  simp [here]

/-- The same place with another channel there. -/
theorem replaced (h : Located key channels before c after) {c' : Channel α}
    (same : c'.keys = c.keys) :
    Located key (before ++ c' :: after) before c' after :=
  ⟨rfl, same ▸ h.here, h.not_before, h.not_after⟩

theorem mem (h : Located key channels before c after) : c ∈ channels := by
  rw [h.split]
  exact List.mem_append_right _ List.mem_cons_self

/-- Giving up the last key of a channel releases the ring, and any other only changes the handles.
-/
theorem dropHandle (h : Located key channels before c after) (k : EntryKind α) :
    dropHandle k key channels =
      if (c.without key).isEmpty then
        ⟨before ++ after, (c.ring.release k).2, (c.ring.release k).1⟩
      else ⟨before ++ { c with handles := c.without key } :: after, [], none⟩ := by
  have here := (c.isReached_iff key).mpr h.here
  have earlier := h.not_before
  rw [h.split]
  clear h
  induction before with
  | nil => simp [Session.dropHandle, here]
  | cons other rest ih =>
    rw [keysOf_cons, List.mem_append, not_or] at earlier
    have unreached := (other.isReached_eq_false key).mpr earlier.1
    simp only [List.cons_append, Session.dropHandle, ih earlier.2, unreached,
      Bool.not_false, if_true]
    split <;> rfl

end Located

/-- A key that leads nowhere can be given up without effect. -/
theorem dropHandle_of_not_mem (k : EntryKind α) {key : Key} {channels : List (Channel α)}
    (out : key ∉ keysOf channels) : dropHandle k key channels = ⟨channels, [], none⟩ := by
  induction channels with
  | nil => rfl
  | cons c rest ih =>
    rw [keysOf_cons, List.mem_append, not_or] at out
    simp [dropHandle, (c.isReached_eq_false key).mpr out.1, ih out.2]

/-- A key that is given up leaves at most the end of a ring in the log. -/
theorem dropHandle_effects (k : EntryKind α) (key : Key) (channels : List (Channel α)) :
    (dropHandle k key channels).effects = [] ∨
      ∃ r : Ring α, (dropHandle k key channels).effects = (r.release k).2 := by
  induction channels with
  | nil => exact .inl rfl
  | cons c rest ih =>
    simp only [dropHandle]
    split
    · exact ih
    · split
      · exact .inr ⟨c.ring, rfl⟩
      · exact .inl rfl

end RingQueue.Session
