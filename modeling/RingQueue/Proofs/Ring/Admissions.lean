import RingQueue.Proofs.Ring.Endings

/-!
What holds while admissions are outstanding.

A caller may keep an admission while it makes other calls, as a constructor does that uses the queue
for which it makes an entry. `Admissions` is a ring together with the admissions that are out, and
`Admissions.call` makes one whole call. Whatever the sequence of calls, the ring counts the unread
entries and the admissions that are out, and the count is all that decides (`admissions_accounted`).
-/
namespace RingQueue

variable {α : Type}

/-! ## The loop that makes room -/

namespace Ring

/-- The loop that makes room, without any bound on its turns: the first entry evicted and the ring
once there is room, or nothing if that takes more turns than given. A turn that finds no entry to
evict only leads to the next one. -/
def roomAfter : Nat → Option α → Ring α → Option (Option α × Ring α)
  | 0, _, _ => none
  | turns + 1, kept, r =>
    match r.tryAdmission with
    | some r => some (kept, r)
    | none =>
      match r.takeFront with
      | some (some victim, r) => roomAfter turns (kept <|> some victim) r
      | _ => roomAfter turns kept r

namespace Holds

variable {r : Ring α} {c reserved : Nat} {a : α} {entries : List α}

theorem roomAfter_room {r' : Ring α} (admitted : r.tryAdmission = some r') (turns : Nat)
    (kept : Option α) : r.roomAfter (turns + 1) kept = some (kept, r') := by
  simp only [roomAfter, admitted]

/-- In a full ring the first turn evicts the oldest entry, and the second finds room. -/
theorem roomAfter_full (h : r.Holds c (a :: entries) reserved)
    (full : (a :: entries).length + reserved = c) :
    ∃ r', r.request .overwrite = .returned (.granted (some a)) r' [.reported (.evicted c)] ∧
      r'.Holds c entries (reserved + 1) ∧ r.roomAfter 1 none = none ∧
      ∀ turns, r.roomAfter (turns + 2) none = some (some a, r') := by
  have denied := h.tryAdmission_full full
  obtain ⟨left, taken, leftHolds⟩ := h.takeFront_cons
  simp only [List.length_cons] at full
  obtain ⟨admitted, granted, -⟩ := leftHolds.tryAdmission_room (by omega)
  obtain ⟨r', request, holds⟩ := h.request_overwrite_full (by simpa using full)
  -- The request makes the same two turns, so it ends with the same ring.
  have same : r' = admitted := by
    simp only [Ring.request, h.unreadCount, List.length_cons, evictUntilRoom, denied, taken,
      granted] at request
    exact (congrArg Call.ring request).symm
  subst same
  refine ⟨r', request, holds, ?_, ?_⟩
  · simp only [roomAfter, denied, taken]
  · intro turns
    rw [roomAfter]
    simp only [denied, taken]
    exact roomAfter_room granted turns (some a)

/-- When all room belongs to admissions no number of turns is enough. -/
theorem roomAfter_unpublished (h : r.Holds c [] c) (turns : Nat) (kept : Option α) :
    r.roomAfter turns kept = none := by
  have denied := h.tryAdmission_full (by simp)
  induction turns with
  | zero => rfl
  | succ turns ih => simp only [roomAfter, denied, h.takeFront_nil, ih]

/-- A request for room returns what the loop returns, and waits where the loop goes on for ever. -/
theorem roomAfter_iff (h : r.Holds c entries reserved) (evicted : Option α) (r' : Ring α) :
    (∃ turns, r.roomAfter turns none = some (evicted, r')) ↔
      (r.request .overwrite).outcome = .returned (.granted evicted) ∧
        (r.request .overwrite).ring = r' := by
  rcases Nat.lt_or_ge (entries.length + reserved) c with room | full
  · obtain ⟨admitted, granted, -⟩ := h.tryAdmission_room room
    have request : r.request .overwrite = .returned (.granted none) admitted [] := by
      simp only [Ring.request, evictUntilRoom, granted]
    rw [request]
    constructor
    · rintro ⟨_ | turns, returned⟩
      · cases returned
      · rw [roomAfter_room granted] at returned
        cases returned
        exact ⟨rfl, rfl⟩
    · rintro ⟨outcome, rfl⟩
      cases outcome
      exact ⟨1, roomAfter_room granted 0 none⟩
  · have full : entries.length + reserved = c := Nat.le_antisymm h.fits full
    cases entries with
    | nil =>
      simp only [List.length_nil, Nat.zero_add] at full
      subst full
      rw [h.request_overwrite_unpublished]
      constructor
      · rintro ⟨turns, returned⟩
        rw [h.roomAfter_unpublished] at returned
        cases returned
      · rintro ⟨outcome, -⟩
        cases outcome
    | cons oldest rest =>
      obtain ⟨made, request, -, first, later⟩ := h.roomAfter_full full
      rw [request]
      constructor
      · rintro ⟨_ | _ | turns, returned⟩
        · cases returned
        · rw [first] at returned
          cases returned
        · rw [later] at returned
          cases returned
          exact ⟨rfl, rfl⟩
      · rintro ⟨outcome, rfl⟩
        cases outcome
        exact ⟨2, later 0⟩

end Holds

end Ring

/-! ## Calls -/

/-- A call on a ring. Admissions are told apart by the numbers under which they were given out. -/
inductive AdmissionCall (α : Type) : Type 1 where
  | tryAdmit
  | forceAdmit
  | publish (admission : Nat) (value : α)
  | giveUp (admission : Nat)
  | takeFront
  | peek {β : Type} (look : α → Except Fault β)

/-- A ring of which admissions may be out. -/
structure Admissions (α : Type) where
  ring : Ring α
  -- The admissions that are out.
  held : List Nat
  -- How many were ever given out.
  given : Nat
  -- The values published, in the order of publication.
  published : List α
  -- The entries taken or evicted, in that order.
  left : List α

namespace Admissions

def start (r : Ring α) : Admissions α := ⟨r, [], 0, [], []⟩

/-- The state with one admission more. -/
def grant (s : Admissions α) (r : Ring α) (evicted : Option α) : Admissions α :=
  { s with ring := r, held := s.given :: s.held, given := s.given + 1
           left := s.left ++ evicted.toList }

/-- What a call leaves, if it returns. Only admissions that are out can be published or given up. -/
def call (s : Admissions α) : AdmissionCall α → Option (Admissions α)
  | .tryAdmit =>
    match s.ring.tryAdmission with
    | some r => some (s.grant r none)
    | none => some s
  | .forceAdmit =>
    let made := s.ring.request .overwrite
    match made.outcome with
    | .returned (.granted evicted) => some (s.grant made.ring evicted)
    | _ => none
  | .publish admission value =>
    if admission ∈ s.held then
      (s.ring.publish value).map fun r =>
        { s with ring := r, held := s.held.erase admission, published := s.published ++ [value] }
    else none
  | .giveUp admission =>
    if admission ∈ s.held then
      some { s with ring := s.ring.returnAdmission, held := s.held.erase admission }
    else none
  | .takeFront =>
    s.ring.takeFront.map fun (entry, r) => { s with ring := r, left := s.left ++ entry.toList }
  | .peek look => some { s with ring := (s.ring.peek look).ring }

/-- What any sequence of calls on a ring leads to. -/
inductive Reached (first : Ring α) : Admissions α → Prop where
  | start : Reached first (start first)
  | next {s t : Admissions α} (call : AdmissionCall α) :
    Reached first s → s.call call = some t → Reached first t

/-- What holds of a ring that held these entries at first, for each call that may come next. -/
structure Accounted (c : Nat) (unread : List α) (s : Admissions α) : Prop where
  capacity : s.ring.capacity = c
  len : s.ring.len = s.ring.unread.length + s.held.length
  fits : s.ring.unread.length + s.held.length ≤ c
  distinct : s.held.Nodup
  -- Entries are unread from their publication on, and leave in the same order.
  in_order : unread ++ s.published = s.left ++ s.ring.unread
  admits : s.ring.unread.length + s.held.length < c →
    ∃ r, s.ring.tryAdmission = some r ∧ r.unread = s.ring.unread ∧ r.len = s.ring.len + 1
  denies : s.ring.unread.length + s.held.length = c → s.ring.tryAdmission = none
  -- Both tests of a publication succeed at once, whichever admission it is for.
  publishes : s.held ≠ [] →
    s.ring.slotIsFree s.ring.write = true ∧ s.ring.visible = s.ring.write ∧
    ∀ a, ∃ r, s.ring.publish a = some r ∧ r.unread = s.ring.unread ++ [a] ∧ r.len = s.ring.len
  gives_up : s.held ≠ [] →
    (∃ size, s.ring.returnAdmission = { s.ring with size }) ∧
    s.ring.returnAdmission.unread = s.ring.unread ∧ s.ring.returnAdmission.len + 1 = s.ring.len
  takes : ∃ r, s.ring.takeFront = some (s.ring.unread.head?, r) ∧
    r.unread = s.ring.unread.tail ∧ r.len = s.ring.unread.tail.length + s.held.length
  peeks : ∀ (β : Type) (look : α → Except Fault β), (s.ring.peek look).ring = s.ring ∧
    (s.ring.peek look).outcome =
      match s.ring.unread.head? with
      | none => .returned none
      | some a =>
        match look a with
        | .ok b => .returned (some b)
        | .error fault => .aborted fault
  -- A forced request returns in its first turn, in its second, or never.
  forces : s.ring.unread.length + s.held.length < c →
    ∃ r, s.ring.request .overwrite = .returned (.granted none) r [] ∧
      r.unread = s.ring.unread ∧ s.ring.roomAfter 1 none = some (none, r)
  evicts : s.ring.unread.length + s.held.length = c → ∀ a rest, s.ring.unread = a :: rest →
    ∃ r, s.ring.request .overwrite = .returned (.granted (some a)) r [.reported (.evicted c)] ∧
      r.unread = rest ∧ s.ring.roomAfter 2 none = some (some a, r)
  never_returns : (∀ turns, s.ring.roomAfter turns none = none) ↔ s.held.length = c
  returns : ∀ evicted r, (∃ turns, s.ring.roomAfter turns none = some (evicted, r)) ↔
    (s.ring.request .overwrite).outcome = .returned (.granted evicted) ∧
      (s.ring.request .overwrite).ring = r

/-! ## What a call keeps -/

/-- The ring holds these entries and counts the admissions that are out. -/
structure Sound (c : Nat) (unread entries : List α) (s : Admissions α) : Prop where
  holds : s.ring.Holds c entries s.held.length
  distinct : s.held.Nodup
  issued : ∀ admission ∈ s.held, admission < s.given
  in_order : unread ++ s.published = s.left ++ entries

variable {c : Nat} {unread entries : List α} {s t : Admissions α}

theorem Sound.grant (h : s.Sound c unread entries) {r : Ring α} {left : List α}
    {evicted : Option α} (holds : r.Holds c left (s.held.length + 1))
    (leaves : entries = evicted.toList ++ left) : (s.grant r evicted).Sound c unread left where
  holds := holds
  distinct := by
    refine List.nodup_cons.mpr ⟨?_, h.distinct⟩
    intro out
    exact Nat.lt_irrefl _ (h.issued _ out)
  issued := by
    intro admission member
    rcases List.mem_cons.mp member with rfl | before
    · exact Nat.lt_succ_self _
    · exact Nat.lt_succ_of_lt (h.issued admission before)
  in_order := by
    change unread ++ s.published = s.left ++ evicted.toList ++ left
    rw [h.in_order, leaves, List.append_assoc]

/-- An admission that is out is counted, and is not any more once it is used. -/
theorem Sound.reserved (h : s.Sound c unread entries) {admission : Nat}
    (out : admission ∈ s.held) :
    s.ring.Holds c entries ((s.held.erase admission).length + 1) := by
  have some_out := List.length_pos_of_mem out
  rw [List.length_erase_of_mem out, Nat.sub_add_cancel some_out]
  exact h.holds

theorem Sound.call (h : s.Sound c unread entries) {call : AdmissionCall α}
    (returned : s.call call = some t) : ∃ left, t.Sound c unread left := by
  cases call with
  | tryAdmit =>
    simp only [Admissions.call] at returned
    rcases Nat.lt_or_ge (entries.length + s.held.length) c with room | full
    · obtain ⟨r, admitted, holds⟩ := h.holds.tryAdmission_room room
      simp only [admitted, Option.some.injEq] at returned
      exact ⟨entries, returned ▸ h.grant holds rfl⟩
    · have denied := h.holds.tryAdmission_full (Nat.le_antisymm h.holds.fits full)
      simp only [denied, Option.some.injEq] at returned
      exact ⟨entries, returned ▸ h⟩
  | forceAdmit =>
    have requested := h.holds.requested .overwrite
    simp only [Admissions.call] at returned
    generalize s.ring.request .overwrite = made at requested returned
    cases requested with
    | room room holds =>
      cases returned
      exact ⟨entries, h.grant holds rfl⟩
    | @evicting oldest rest _ kind contents full holds =>
      cases returned
      exact ⟨rest, h.grant holds contents⟩
    | denied kind => cases kind
    | waiting => cases returned
  | publish admission value =>
    simp only [Admissions.call] at returned
    split at returned
    · rename_i out
      obtain ⟨r, published, holds⟩ := (h.reserved out).publish value
      simp only [published, Option.map_some, Option.some.injEq] at returned
      subst returned
      refine ⟨entries ++ [value], holds, h.distinct.erase admission, ?_, ?_⟩
      · exact fun other member => h.issued other (List.mem_of_mem_erase member)
      · simp only [← List.append_assoc, h.in_order]
    · cases returned
  | giveUp admission =>
    simp only [Admissions.call] at returned
    split at returned
    · rename_i out
      simp only [Option.some.injEq] at returned
      subst returned
      refine ⟨entries, (h.reserved out).returnAdmission, h.distinct.erase admission, ?_, h.in_order⟩
      exact fun other member => h.issued other (List.mem_of_mem_erase member)
    · cases returned
  | takeFront =>
    simp only [Admissions.call] at returned
    cases entries with
    | nil =>
      simp only [h.holds.takeFront_nil, Option.map_some, Option.some.injEq] at returned
      subst returned
      exact ⟨[], h.holds, h.distinct, h.issued, by simpa using h.in_order⟩
    | cons a rest =>
      obtain ⟨r, taken, holds⟩ := h.holds.takeFront_cons
      simp only [taken, Option.map_some, Option.some.injEq] at returned
      subst returned
      exact ⟨rest, holds, h.distinct, h.issued, by simpa using h.in_order⟩
  | peek look =>
    simp only [Admissions.call, Option.some.injEq] at returned
    subst returned
    exact ⟨entries, by rw [h.holds.peek_ring]; exact h.holds, h.distinct, h.issued, h.in_order⟩

theorem Reached.sound {r : Ring α} (start : r.Holds c unread 0) (reached : Reached r s) :
    ∃ entries, s.Sound c unread entries := by
  induction reached with
  | start =>
    exact ⟨unread, start, List.nodup_nil, by simp [Admissions.start], by simp [Admissions.start]⟩
  | next call before returned ih =>
    obtain ⟨entries, sound⟩ := ih
    exact sound.call returned

/-! ## What the next call meets -/

theorem Sound.publishes (h : s.Sound c unread entries) (out : s.held ≠ []) :
    s.ring.slotIsFree s.ring.write = true ∧ s.ring.visible = s.ring.write ∧
      ∀ a, ∃ r, s.ring.publish a = some r ∧ r.unread = s.ring.unread ++ [a] ∧
        r.len = s.ring.len := by
  obtain ⟨admission, member⟩ := List.exists_mem_of_ne_nil _ out
  have holds := h.reserved member
  have published (a : α) : ∃ r, s.ring.publish a = some r ∧ r.unread = s.ring.unread ++ [a] ∧
      r.len = s.ring.len := by
    obtain ⟨r, published, after⟩ := holds.publish a
    refine ⟨r, published, by rw [after.unread, holds.unread], ?_⟩
    rw [after.len, holds.len, List.length_append, List.length_singleton]
    omega
  refine ⟨?_, holds.write.symm, published⟩
  -- The slot after the unread entries was left one round before: an admission without an entry
  -- keeps `write` less than a round ahead of `freed`.
  have write := holds.write
  have visible := holds.visible
  have fits := holds.fits
  simp only [Ring.slotIsFree, Bool.or_eq_true, decide_eq_true_eq, holds.capacity]
  omega

theorem Sound.gives_up (h : s.Sound c unread entries) (out : s.held ≠ []) :
    s.ring.returnAdmission.unread = s.ring.unread ∧
      s.ring.returnAdmission.len + 1 = s.ring.len := by
  obtain ⟨admission, member⟩ := List.exists_mem_of_ne_nil _ out
  have holds := h.reserved member
  have after := holds.returnAdmission
  refine ⟨by rw [after.unread, holds.unread], ?_⟩
  rw [after.len, holds.len]
  omega

theorem Sound.takes (h : s.Sound c unread entries) :
    ∃ r, s.ring.takeFront = some (s.ring.unread.head?, r) ∧ r.unread = s.ring.unread.tail ∧
      r.len = s.ring.unread.tail.length + s.held.length := by
  rw [h.holds.unread]
  cases entries with
  | nil => exact ⟨s.ring, h.holds.takeFront_nil, h.holds.unread, h.holds.len⟩
  | cons a rest =>
    obtain ⟨r, taken, holds⟩ := h.holds.takeFront_cons
    exact ⟨r, taken, holds.unread, holds.len⟩

theorem Sound.evicts (h : s.Sound c unread entries)
    (full : s.ring.unread.length + s.held.length = c) {a : α} {rest : List α}
    (oldest : s.ring.unread = a :: rest) :
    ∃ r, s.ring.request .overwrite = .returned (.granted (some a)) r [.reported (.evicted c)] ∧
      r.unread = rest ∧ s.ring.roomAfter 2 none = some (some a, r) := by
  have holds := h.holds
  rw [← holds.unread, oldest] at holds
  rw [oldest] at full
  obtain ⟨r, request, after, -, later⟩ := holds.roomAfter_full full
  exact ⟨r, request, after.unread, later 0⟩

theorem Sound.forces (h : s.Sound c unread entries)
    (room : s.ring.unread.length + s.held.length < c) :
    ∃ r, s.ring.request .overwrite = .returned (.granted none) r [] ∧
      r.unread = s.ring.unread ∧ s.ring.roomAfter 1 none = some (none, r) := by
  rw [h.holds.unread] at room ⊢
  obtain ⟨r, admitted, holds⟩ := h.holds.tryAdmission_room room
  refine ⟨r, ?_, holds.unread, Ring.Holds.roomAfter_room admitted 0 none⟩
  simp only [Ring.request, Ring.evictUntilRoom, admitted]

theorem Sound.never_returns (h : s.Sound c unread entries) :
    (∀ turns, s.ring.roomAfter turns none = none) ↔ s.held.length = c := by
  have fits := h.holds.fits
  have count := h.holds.unread
  constructor
  · intro never
    by_contra notAll
    rcases Nat.lt_or_ge (entries.length + s.held.length) c with room | full
    · obtain ⟨r, -, -, returned⟩ := h.forces (by rw [count]; exact room)
      rw [never] at returned
      cases returned
    · -- Not all room belongs to admissions, so that an entry can be evicted.
      cases entries with
      | nil => exact notAll (Nat.le_antisymm (by simpa using fits) (by simpa using full))
      | cons a rest =>
        obtain ⟨r, -, -, returned⟩ :=
          h.evicts (by rw [count]; exact Nat.le_antisymm fits full) count
        rw [never] at returned
        cases returned
  · intro all turns
    have holds := h.holds
    have none_unread : entries = [] := List.eq_nil_of_length_eq_zero (by omega)
    rw [none_unread, all] at holds
    exact holds.roomAfter_unpublished turns none

theorem Sound.accounted (h : s.Sound c unread entries) : s.Accounted c unread where
  capacity := h.holds.capacity
  len := by rw [h.holds.unread, h.holds.len]
  fits := by rw [h.holds.unread]; exact h.holds.fits
  distinct := h.distinct
  in_order := by rw [h.holds.unread]; exact h.in_order
  admits := by
    intro room
    rw [h.holds.unread] at room ⊢
    obtain ⟨r, admitted, holds⟩ := h.holds.tryAdmission_room room
    exact ⟨r, admitted, holds.unread, by rw [holds.len, h.holds.len]; omega⟩
  denies := by
    intro full
    rw [h.holds.unread] at full
    exact h.holds.tryAdmission_full full
  publishes := h.publishes
  gives_up := fun out => ⟨⟨_, rfl⟩, h.gives_up out⟩
  takes := h.takes
  peeks := by
    intro β look
    refine ⟨h.holds.peek_ring look, ?_⟩
    rw [h.holds.serves.peek look, h.holds.unread]
    cases entries.head? with
    | none => rfl
    | some a =>
      dsimp only
      cases look a <;> rfl
  forces := h.forces
  evicts := fun full a rest oldest => h.evicts full oldest
  never_returns := h.never_returns
  returns := h.holds.roomAfter_iff

end Admissions

/-! ## Main result -/

/-- Whatever calls a ring at rest has seen, it counts the unread entries and the admissions that are
out, and the count decides what the next call does. -/
theorem admissions_accounted {r : Ring α} {c : Nat} {unread : List α} (rest : r.Holds c unread 0)
    {s : Admissions α} (reached : Admissions.Reached r s) : s.Accounted c unread := by
  obtain ⟨entries, sound⟩ := reached.sound rest
  exact sound.accounted

/-- Two admissions, of which the second is published first; a forced request then evicts its entry,
and both slots belong to admissions. -/
theorem admissions_of_two_slots_accounted :
    ∃ s : Admissions Nat, (Ring.empty 2 : Ring Nat).Holds 2 [] 0 ∧
      Admissions.Reached (Ring.empty 2) s ∧ s.held = [2, 0] ∧ s.left = [7] ∧
      s.Accounted 2 [] := by
  have holds : (Ring.empty 2 : Ring Nat).Holds 2 [] 0 := Ring.holds_empty 2
  have reached : Admissions.Reached (Ring.empty 2 : Ring Nat) (.start (.empty 2)) := .start
  have first := reached.next .tryAdmit rfl
  have second := first.next .tryAdmit rfl
  have published := second.next (.publish 1 7) rfl
  have forced := published.next .forceAdmit rfl
  exact ⟨_, holds, forced, rfl, rfl, admissions_accounted holds forced⟩

end RingQueue
