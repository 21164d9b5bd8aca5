import Mathlib.Tactic.Common
import RingQueue.Proofs.Protocol.Ownership
import RingQueue.Proofs.Protocol.Threads

/-!
Threads that wait for each other do not wait for ever.

Inside a call a thread waits for its turn to publish, for its turn to leave a slot, or for the end
of a pin. What it waits for is in the hands of another thread, and that thread can go on: the owner
of the position `visible`, the extractor of the position `freed`, or the visitor that has the front
pinned. None of the three waits for anything itself.
-/
namespace RingQueue.Protocol

variable {α : Type}

namespace System

/-! ## Threads that wait, and threads that go on -/

/-- The thread looks at something once more that has not changed: its next access leads nowhere. -/
def Retests (s : System α) (i : Nat) : Prop :=
  ∃ thread, s.threads[i]? = some thread ∧ thread.point ≠ .idle ∧
    (advance s.ring thread.point).point = thread.point

/-- The thread is inside a call, and its next step leads to another point of the call or out of it.
-/
def GoesOn (s : System α) (i : Nat) : Prop :=
  ∃ thread thread', s.threads[i]? = some thread ∧ thread.point ≠ .idle ∧ Step s (s.runThread i) ∧
    (s.runThread i).threads[i]? = some thread' ∧ thread'.point ≠ thread.point

/-- The thread has written the slot of its position and waits until the positions below are
published. -/
def AwaitsTurn (s : System α) (i position : Nat) : Prop :=
  s.ring.visible ≠ position ∧ ∃ thread push kept, s.threads[i]? = some thread ∧
    thread.point = .awaitTurn position push kept

/-- The thread has emptied the slot of its position and waits until the slots below are left. -/
def AwaitsLeave (s : System α) (i position : Nat) : Prop :=
  s.ring.freed ≠ position ∧ ∃ thread a errand, s.threads[i]? = some thread ∧
    thread.point = .awaitLeave position a errand

/-- The thread wants to extract the front or to pin it, and somebody else has it pinned. -/
def AwaitsUnpin (s : System α) (i : Nat) : Prop :=
  s.ring.read = .pinned ∧ ∃ thread, s.threads[i]? = some thread ∧
    ((∃ errand, thread.point = .findFront errand) ∨ ∃ visit, thread.point = .findPin visit)

/-! ## What threads hold -/

/-- The thread is to publish the position. -/
def Owns (s : System α) (i position : Nat) : Prop :=
  ∃ thread a filled, s.threads[i]? = some thread ∧ thread.point.stage = .claimed position a filled

/-- The thread has the front pinned. -/
def Pins (s : System α) (i : Nat) : Prop :=
  ∃ thread position, s.threads[i]? = some thread ∧ thread.point.stage = .pinning position

/-- The thread is about to lower `size` for a position that it has extracted and left. -/
def Leaves (s : System α) (i : Nat) : Prop :=
  ∃ thread, s.threads[i]? = some thread ∧ thread.point.stage = .leaving

/-- The thread was admitted and has not claimed a position. -/
def HasRoom (s : System α) (i : Nat) : Prop :=
  ∃ thread, s.threads[i]? = some thread ∧ thread.point.stage = .admitted

/-- The thread has been admitted, and has not published yet. -/
def IsAdmitted (s : System α) (i : Nat) : Prop := s.HasRoom i ∨ ∃ position, s.Owns i position

/-- The thread has extracted an entry, and still counts for it. -/
def IsExtracting (s : System α) (i : Nat) : Prop := s.Leaves i ∨ ∃ position, s.Extracting i position

/-- Each wait is for a thread that goes on, and whoever waits inside a call waits in one of these
ways. -/
structure WaitsEnd (s : System α) : Prop where
  publication : ∀ i position, s.AwaitsTurn i position → ∃ j, s.Owns j s.ring.visible ∧ s.GoesOn j
  departure : ∀ i position, s.AwaitsLeave i position →
    ∃ j, s.Extracting j s.ring.freed ∧ s.GoesOn j
  unpinning : ∀ i, s.AwaitsUnpin i → ∃ j, s.Pins j ∧ s.GoesOn j
  retests : ∀ i, s.Retests i ↔
    (∃ position, s.AwaitsTurn i position) ∨ (∃ position, s.AwaitsLeave i position) ∨ s.AwaitsUnpin i
  -- Not all of those wait who are past admission, nor all who are extracting, nor who has the front
  -- pinned.
  admitted : (∃ i, s.IsAdmitted i) → ∃ j, s.IsAdmitted j ∧ s.GoesOn j
  extracting : (∃ i, s.IsExtracting i) → ∃ j, s.IsExtracting j ∧ s.GoesOn j
  pinning : ∀ i, s.Pins i → s.GoesOn i

end System

/-! ## Steps that lead on -/

section Steps

variable {s : System α} {i : Nat} {thread : Thread α}

/-- An access that leads to another point is a step of the system that does. -/
theorem System.goesOn_of_advance (found : s.threads[i]? = some thread)
    (inside : thread.point ≠ .idle) (on : (advance s.ring thread.point).point ≠ thread.point) :
    s.GoesOn i := by
  obtain ⟨point, todo, answers⟩ := thread
  refine ⟨_, ⟨(advance s.ring point).point, todo,
    (answersIn (advance s.ring point).acts).reverse ++ answers⟩, found, inside,
    .run s i (List.getElem?_eq_some_iff.mp found).1, ?_, on⟩
  rw [runThread_access found inside]
  exact threads_after_same found

/-- A thread that goes on does not look again at the same thing. -/
theorem System.GoesOn.not_retests (on : s.GoesOn i) : ¬ s.Retests i := by
  rintro ⟨thread, found, inside, same⟩
  obtain ⟨thread', next, found', -, -, here, other⟩ := on
  obtain ⟨point, todo, answers⟩ := thread
  rw [found] at found'
  cases found'
  rw [runThread_access found inside, threads_after_same found] at here
  cases here
  exact other same

end Steps

/-! ## Visitors -/

/-- A visitor clones the slots from the front on. -/
def Point.ClonesOnward : Point α → Prop
  | .cloneSlot position next _ _ _ => position ≤ next
  | _ => True

theorem Turn.clonesOnward {r ring : Ring α} {thread thread' : Thread α} {acts : List (Act α)}
    (turn : Turn r thread ring thread' acts) (onward : thread.point.ClonesOnward) :
    thread'.point.ClonesOnward := by
  cases turn with
  | call request => cases request <;> trivial
  | access todo answers leads =>
    cases leads with
    | wait => exact onward
    | look position stop visit => exact Nat.le_refl position
    | clone position next stop clones visit a => exact Nat.le_succ_of_le onward
    | _ => trivial

theorem Reachable.clonesOnward {r : Ring α} {calls : List (List (Request α))} {s : System α}
    (reachable : Reachable (System.start r calls) s) {i : Nat} {thread : Thread α}
    (found : s.threads[i]? = some thread) : thread.point.ClonesOnward := by
  obtain ⟨-, -, onward⟩ := reachable.thread (fun _ thread _ => thread.point.ClonesOnward)
    (fun _ => trivial) (fun _ _ _ _ _ _ _ onward turn => turn.clonesOnward onward) found
  exact onward

namespace System.Sound

variable {first c : Nat} {unread : List α} {s : System α} {i : Nat} {thread : Thread α}

/-- An admitted thread runs its constructor and then claims a position or gives its room back. -/
theorem room_goes_on (found : s.threads[i]? = some thread)
    (stage : thread.point.stage = .admitted) : s.GoesOn i := by
  obtain ⟨point, todo, answers⟩ := thread
  cases point with
  | construct push kept =>
    refine goesOn_of_advance found (by rintro ⟨⟩) ?_
    simp only [advance]
    split <;> rintro ⟨⟩
  | returnRoom | claim => exact goesOn_of_advance found (by rintro ⟨⟩) (by rintro ⟨⟩)
  | _ => cases stage

/-- The owner of the position `visible` finds its slot free and has its turn. -/
theorem owner_goes_on (h : s.Sound first c unread) (found : s.threads[i]? = some thread) {a : α}
    {filled : Bool} (stage : thread.point.stage = .claimed s.ring.visible a filled) :
    s.GoesOn i := by
  obtain ⟨point, todo, answers⟩ := thread
  have member := List.mem_of_getElem? found
  cases point with
  | awaitSlot position push kept =>
    have free := h.slot_free member rfl
    refine goesOn_of_advance found (by rintro ⟨⟩) ?_
    simp only [advance, free, if_true]
    rintro ⟨⟩
  | awaitTurn position push kept =>
    injection stage with turn
    refine goesOn_of_advance found (by rintro ⟨⟩) ?_
    simp only [advance, if_pos turn.symm]
    rintro ⟨⟩
  | fillSlot | publish => exact goesOn_of_advance found (by rintro ⟨⟩) (by rintro ⟨⟩)
  | _ => cases stage

/-- The extractor of the position `freed` finds an entry in its slot and may leave it. -/
theorem extractor_goes_on (h : s.Sound first c unread) (found : s.threads[i]? = some thread)
    {taken : Option α} (stage : thread.point.stage = .extracting s.ring.freed taken) :
    s.GoesOn i := by
  obtain ⟨point, todo, answers⟩ := thread
  have member := List.mem_of_getElem? found
  cases point with
  | emptySlot position errand =>
    obtain ⟨a, entry⟩ := h.taken_occupied member rfl
    refine goesOn_of_advance found (by rintro ⟨⟩) ?_
    simp only [advance, entry]
    rintro ⟨⟩
  | awaitLeave position a errand =>
    injection stage with turn
    refine goesOn_of_advance found (by rintro ⟨⟩) ?_
    simp only [advance, if_pos turn.symm]
    rintro ⟨⟩
  | leaveSlot => exact goesOn_of_advance found (by rintro ⟨⟩) (by rintro ⟨⟩)
  | _ => cases stage

theorem leaving_goes_on (found : s.threads[i]? = some thread)
    (stage : thread.point.stage = .leaving) : s.GoesOn i := by
  obtain ⟨point, todo, answers⟩ := thread
  cases point with
  | lowerSize a errand =>
    refine goesOn_of_advance found (by rintro ⟨⟩) ?_
    simp only [advance, afterExtraction]
    split <;> rintro ⟨⟩
  | _ => cases stage

/-- A visitor finds an entry in every slot that it clones. -/
theorem visitor_goes_on (h : s.Sound first c unread) (found : s.threads[i]? = some thread)
    (onward : thread.point.ClonesOnward) {position : Nat}
    (stage : thread.point.stage = .pinning position) : s.GoesOn i := by
  obtain ⟨point, todo, answers⟩ := thread
  have member := List.mem_of_getElem? found
  cases point with
  | cloneSlot pinned next stop clones visit =>
    refine goesOn_of_advance found (by rintro ⟨⟩) ?_
    simp only [advance]
    split
    · rintro ⟨⟩
    · -- The slots from the front to `visible` are all occupied.
      have reading : s.Reading next :=
        ⟨_, member, pinned, next, stop, clones, visit, rfl, onward, Nat.lt_of_not_le ‹_›⟩
      obtain ⟨a, entry⟩ := h.reading_occupied reading
      simp only [entry]
      intro same
      injection same
      omega
  | checkPinned | clearPin => exact goesOn_of_advance found (by rintro ⟨⟩) (by rintro ⟨⟩)
  | _ => cases stage

/-! ## Who holds what others wait for -/

/-- While a claimed position is not published, the lowest of them has an owner. -/
theorem exists_owner (h : s.Sound first c unread) {position : Nat} (owned : s.Owns i position) :
    ∃ j, s.Owns j s.ring.visible ∧ s.GoesOn j := by
  obtain ⟨thread, a, filled, found, stage⟩ := owned
  have here := s.stages_getElem? found
  rw [stage] at here
  have claimed := h.cursors.claimed (List.mem_of_getElem? here)
  have counted := h.cursors.owners s.ring.visible
  rw [window_inside (Nat.le_refl _) (by omega)] at counted
  obtain ⟨σ, member, counts⟩ :=
    exists_of_tally_pos (by omega : 0 < tally (Stage.owns s.ring.visible) s.stages)
  obtain ⟨owner, inside, rfl⟩ := List.mem_map.mp member
  obtain ⟨j, there⟩ := List.mem_iff_getElem?.mp inside
  generalize kind : owner.point.stage = σ at counts
  cases σ with
  | claimed position b full =>
    -- A stage counts for its own position only.
    have same : position = s.ring.visible := by
      by_contra other
      rw [Stage.owns, single_other other] at counts
      cases counts
    subst same
    exact ⟨j, ⟨owner, b, full, there, kind⟩, h.owner_goes_on there kind⟩
  | _ => cases counts

/-- While an extracted position is not left, the lowest of them has an extractor. -/
theorem exists_extractor (h : s.Sound first c unread) {position : Nat}
    (extracts : s.Extracting i position) : ∃ j, s.Extracting j s.ring.freed ∧ s.GoesOn j := by
  obtain ⟨thread, taken, found, stage⟩ := extracts
  have here := s.stages_getElem? found
  rw [stage] at here
  have extracting := h.cursors.extracting (List.mem_of_getElem? here)
  have counted := h.cursors.extractors s.ring.freed
  rw [window_inside (Nat.le_refl _) (by omega)] at counted
  obtain ⟨σ, member, counts⟩ :=
    exists_of_tally_pos (by omega : 0 < tally (Stage.extracts s.ring.freed) s.stages)
  obtain ⟨extractor, inside, rfl⟩ := List.mem_map.mp member
  obtain ⟨j, there⟩ := List.mem_iff_getElem?.mp inside
  generalize kind : extractor.point.stage = σ at counts
  cases σ with
  | extracting position out =>
    have same : position = s.ring.freed := by
      by_contra other
      rw [Stage.extracts, single_other other] at counts
      cases counts
    subst same
    exact ⟨j, ⟨extractor, out, there, kind⟩, h.extractor_goes_on there kind⟩
  | _ => cases counts

/-- While the front is pinned, a visitor has it pinned. -/
theorem exists_visitor (h : s.Sound first c unread) (pinned : s.ring.read = .pinned) :
    ∃ j, s.Pins j := by
  rcases h.readsAt with next | ⟨-, visitor, member, stage⟩
  · rw [pinned] at next
    cases next
  · obtain ⟨j, there⟩ := List.mem_iff_getElem?.mp member
    exact ⟨j, visitor, _, there, stage⟩

/-- A thread that waits for its turn owns its position. -/
theorem owns_of_awaitsTurn {position : Nat} (waits : s.AwaitsTurn i position) :
    s.Owns i position := by
  obtain ⟨-, thread, push, kept, found, point⟩ := waits
  exact ⟨thread, push.value, true, found, by rw [point]; rfl⟩

theorem extracting_of_awaitsLeave {position : Nat} (waits : s.AwaitsLeave i position) :
    s.Extracting i position := by
  obtain ⟨-, thread, a, errand, found, point⟩ := waits
  exact ⟨thread, some a, found, by rw [point]; rfl⟩

end System.Sound

/-! ## Main result -/

section Runs

variable {r : Ring α} {c : Nat} {unread : List α} {calls : List (List (Request α))} {s : System α}
  {i : Nat}

theorem Reachable.visitor_goes_on (h : r.Holds c unread 0)
    (reachable : Reachable (System.start r calls) s) (pins : s.Pins i) : s.GoesOn i := by
  obtain ⟨thread, position, found, stage⟩ := pins
  exact (reachable.sound h).visitor_goes_on found (reachable.clonesOnward found) stage

/-- Whoever looks at the same thing once more waits for a turn, for the slots below, or for a pin to
end: slots are never found in the wrong state. -/
theorem Reachable.retests (h : r.Holds c unread 0) (reachable : Reachable (System.start r calls) s)
    (again : s.Retests i) :
    (∃ position, s.AwaitsTurn i position) ∨ (∃ position, s.AwaitsLeave i position) ∨
      s.AwaitsUnpin i := by
  have sound := reachable.sound h
  have stays : ¬ s.GoesOn i := fun on => on.not_retests again
  obtain ⟨⟨point, todo, answers⟩, found, inside, same⟩ := again
  cases point with
  | idle => exact absurd rfl inside
  | awaitTurn position push kept =>
    refine .inl ⟨position, fun turn => ?_, _, push, kept, found, rfl⟩
    simp only [advance, if_pos turn] at same
    cases same
  | awaitLeave position a errand =>
    refine .inr (.inl ⟨position, fun turn => ?_, _, a, errand, found, rfl⟩)
    simp only [advance, if_pos turn] at same
    cases same
  | findFront errand =>
    refine .inr (.inr ⟨?_, _, found, .inl ⟨errand, rfl⟩⟩)
    cases read : s.ring.read with
    | pinned => rfl
    | next position =>
      simp only [advance, read] at same
      cases same
  | findPin visit =>
    refine .inr (.inr ⟨?_, _, found, .inr ⟨visit, rfl⟩⟩)
    cases read : s.ring.read with
    | pinned => rfl
    | next position =>
      simp only [advance, read] at same
      cases same
  | awaitSlot position push kept =>
    have free := sound.slot_free (List.mem_of_getElem? found) rfl
    simp only [advance, free, if_true] at same
    cases same
  | emptySlot position errand =>
    obtain ⟨a, entry⟩ := sound.taken_occupied (List.mem_of_getElem? found) rfl
    simp only [advance, entry] at same
    cases same
  | checkPinned | cloneSlot | clearPin =>
    exact absurd (reachable.visitor_goes_on h ⟨_, _, found, rfl⟩) stays
  | raiseSize push kept =>
    simp only [advance] at same
    split at same <;> cases same
  | undoRaise push kept =>
    simp only [advance, afterRefusal] at same
    split at same
    · cases same
    · cases same
    · split at same <;> cases same
  | checkFront position errand =>
    simp only [advance] at same
    split at same
    · cases errand <;> cases same
    · cases same
  | takeFront position errand =>
    simp only [advance] at same
    split at same <;> cases same
  | setPin position visit =>
    simp only [advance] at same
    split at same <;> cases same
  | construct | returnRoom | claim => exact absurd (System.Sound.room_goes_on found rfl) stays
  | lowerSize => exact absurd (System.Sound.leaving_goes_on found rfl) stays
  | fillSlot | publish | leaveSlot | readSize => cases same

/-- Conversely, who waits in one of these ways only looks again. -/
theorem System.retests_of_waiting
    (waits : (∃ position, s.AwaitsTurn i position) ∨ (∃ position, s.AwaitsLeave i position) ∨
      s.AwaitsUnpin i) : s.Retests i := by
  rcases waits with ⟨position, other, thread, push, kept, found, point⟩ |
    ⟨position, other, thread, a, errand, found, point⟩ | ⟨pinned, thread, found, at_front⟩
  · refine ⟨thread, found, by rw [point]; rintro ⟨⟩, ?_⟩
    simp only [point, advance, if_neg other]
  · refine ⟨thread, found, by rw [point]; rintro ⟨⟩, ?_⟩
    simp only [point, advance, if_neg other]
  · rcases at_front with ⟨errand, point⟩ | ⟨visit, point⟩
    · refine ⟨thread, found, by rw [point]; rintro ⟨⟩, ?_⟩
      simp only [point, advance, pinned]
    · refine ⟨thread, found, by rw [point]; rintro ⟨⟩, ?_⟩
      simp only [point, advance, pinned]

/-- Whatever the threads do, no wait of one of them is for nothing: another thread can go on that
holds what it waits for. -/
theorem waits_end (h : r.Holds c unread 0) (calls : List (List (Request α)))
    (reachable : Reachable (System.start r calls) s) : s.WaitsEnd := by
  have sound := reachable.sound h
  refine ⟨?_, ?_, ?_, ?_, ?_, ?_, ?_⟩
  · intro i position waits
    exact sound.exists_owner (System.Sound.owns_of_awaitsTurn waits)
  · intro i position waits
    exact sound.exists_extractor (System.Sound.extracting_of_awaitsLeave waits)
  · rintro i ⟨pinned, -⟩
    obtain ⟨j, pins⟩ := sound.exists_visitor pinned
    exact ⟨j, pins, reachable.visitor_goes_on h pins⟩
  · intro i
    exact ⟨reachable.retests h, System.retests_of_waiting⟩
  · rintro ⟨i, room | ⟨position, owned⟩⟩
    · obtain ⟨thread, found, stage⟩ := room
      exact ⟨i, .inl ⟨thread, found, stage⟩, System.Sound.room_goes_on found stage⟩
    · obtain ⟨j, owner, on⟩ := sound.exists_owner owned
      exact ⟨j, .inr ⟨_, owner⟩, on⟩
  · rintro ⟨i, leaves | ⟨position, extracts⟩⟩
    · obtain ⟨thread, found, stage⟩ := leaves
      exact ⟨i, .inl ⟨thread, found, stage⟩, System.Sound.leaving_goes_on found stage⟩
    · obtain ⟨j, extractor, on⟩ := sound.exists_extractor extracts
      exact ⟨j, .inr ⟨_, extractor⟩, on⟩
  · exact fun i pins => reachable.visitor_goes_on h pins

end Runs

/-- The second of two pushers has written its slot and waits for the first, which has just claimed
its own. -/
theorem waits_end_behind_claim :
    (Ring.empty 2 : Ring Nat).Holds 2 [] 0 ∧
    ∃ s, Reachable (System.start (Ring.empty 2) [[.pushWaiting 7], [.pushWaiting 8]]) s ∧
      s.AwaitsTurn 1 1 ∧ s.WaitsEnd :=
  have reached := reachable_run .start [0, 0, 0, 0, 1, 1, 1, 1, 1, 1]
  ⟨Ring.holds_empty 2, _, reached, ⟨by decide, _, _, _, rfl, rfl⟩,
    waits_end (Ring.holds_empty 2) _ reached⟩

end RingQueue.Protocol
