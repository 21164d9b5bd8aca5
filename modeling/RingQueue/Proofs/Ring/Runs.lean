import RingQueue.Proofs.Ring.Checked
import RingQueue.Ring.Runs

/-!
Runs of rings in machine words are exact.

## Main result

`RingMachine.word_runs_exact`: as long as the positions claimed stay below the greatest word, no
sum, difference or remainder in a run goes wrong, and the rings in machine words answer and hold
what the rings in numbers answer and hold, move by move.

## Proof strategy

`Owned.Sound` is what holds of a ring in numbers between two moves, whatever the moves are
(`RingMachine.numbers_step`). Under it a call on words has no flaw (`RingMachine.checked_perform`)
and is the call on numbers (`RingMachine.words_perform`). The run is an induction over the moves.
-/
namespace RingQueue

variable {α : Type}

/-! ## Words read as numbers -/

def Owned.toNumbers (h : Owned (WordRing α) α) : Owned (Ring α) α := ⟨h.ring.toRing, h.pushes⟩

def Performed.toNumbers (p : Performed (WordRing α) α) : Performed (Ring α) α :=
  ⟨p.answer, p.held.map Owned.toNumbers, p.copy.map WordRing.toRing⟩

def RingRecord.toNumbers (record : RingRecord (WordRing α) α) : RingRecord (Ring α) α :=
  ⟨record.answer, record.rings.map Owned.toNumbers⟩

/-! ## Rings between moves -/

/-- The ring is at rest, and as many admissions are given out as pushes are under way. -/
def Owned.Sound (h : Owned (Ring α) α) : Prop :=
  ∃ c entries, 0 < c ∧ c ≤ maxCapacity ∧ h.ring.Holds c entries h.pushes.length

/-- What a call leaves is sound. -/
structure Performed.Sound (p : Performed (Ring α) α) : Prop where
  held : ∀ held, p.held = some held → held.Sound
  copy : ∀ ring, p.copy = some ring → Owned.Sound ⟨ring, []⟩

theorem Performed.Sound.of_held {answer : RingAnswer α} {held : Owned (Ring α) α}
    (sound : held.Sound) :
    Performed.Sound ⟨answer, some held, none⟩ := by
  refine ⟨?_, ?_⟩
  · rintro _ ⟨⟩
    exact sound
  · rintro _ ⟨⟩

namespace RingMachine

section Numbers

variable {k : EntryKind α} {r : Ring α} {c : Nat} {entries : List α} {pushes : List (Option α)}

theorem numbers_request (positive : 0 < c) (bounded : c ≤ maxCapacity)
    (h : r.Holds c entries pushes.length) (policy : OverflowPolicy) :
    Owned.Sound ⟨(r.request policy).ring, (r.request policy).outcome.admitting pushes⟩ := by
  have requested := h.requested policy
  generalize r.request policy = made at requested
  cases requested with
  | room room holds => exact ⟨c, entries, positive, bounded, holds⟩
  | evicting kind contents full holds => exact ⟨c, _, positive, bounded, holds⟩
  | denied => exact ⟨c, entries, positive, bounded, h⟩
  | waiting => exact ⟨c, entries, positive, bounded, h⟩

theorem numbers_settle (positive : 0 < c) (bounded : c ≤ maxCapacity) {evicted : Option α}
    (h : r.Holds c entries (evicted :: pushes).length) (made : Except Fault α) :
    Owned.Sound ⟨(r.settle evicted made).ring, pushes⟩ := by
  cases made with
  | ok a =>
    obtain ⟨r', settled, holds⟩ := h.settle_made evicted a
    rw [settled]
    exact ⟨c, _, positive, bounded, holds⟩
  | error fault => exact ⟨c, entries, positive, bounded, h.returnAdmission⟩

theorem numbers_reserve (positive : 0 < c) (bounded : c ≤ maxCapacity) (h : r.Holds c entries 0)
    (capacity : Nat) : Owned.Sound ⟨(r.reserve k capacity).ring, ([] : List (Option α))⟩ := by
  unfold Ring.reserve
  split
  · exact ⟨c, entries, positive, bounded, h⟩
  · rename_i larger
    rw [h.capacity] at larger
    cases accepted : k.checkSlots capacity with
    | error fault => exact ⟨c, entries, positive, bounded, h⟩
    | ok _ =>
      have bounds := (k.checkSlots_eq_ok_iff capacity).mp accepted
      have fits := h.unreadBatch_fits
      exact ⟨capacity, _, bounds.1, bounds.2.1, Ring.holds_ofBatch h.unreadBatch_full (by omega)⟩

theorem numbers_clear (positive : 0 < c) (bounded : c ≤ maxCapacity) (h : r.Holds c entries 0) :
    Owned.Sound ⟨(r.clear k).ring, ([] : List (Option α))⟩ := by
  unfold Ring.clear
  dsimp only
  split
  · exact ⟨c, entries, positive, bounded, h⟩
  · rw [h.capacity]
    exact ⟨c, [], positive, bounded, Ring.holds_empty c⟩

/-- Whatever is asked of a sound ring, what it leaves is sound. -/
theorem numbers_perform (k : EntryKind α) {h : Owned (Ring α) α} (sound : h.Sound)
    (call : RingCall α) :
    Performed.Sound ((numbers k).perform h call) := by
  obtain ⟨r, pushes⟩ := h
  obtain ⟨c, entries, positive, bounded, h⟩ := sound
  change r.Holds c entries pushes.length at h
  have unchanged : Owned.Sound ⟨r, pushes⟩ := ⟨c, entries, positive, bounded, h⟩
  cases call with
  | len | front => exact .of_held unchanged
  | popFront =>
    cases entries with
    | nil =>
      have left : Owned.Sound ⟨r.popFront.ring, pushes⟩ := by
        rw [h.popFront_nil]
        exact unchanged
      exact .of_held left
    | cons a rest =>
      obtain ⟨r', popped, holds⟩ := h.popFront_cons
      have left : Owned.Sound ⟨r.popFront.ring, pushes⟩ := by
        rw [popped]
        exact ⟨c, rest, positive, bounded, holds⟩
      exact .of_held left
  | drain limit =>
    obtain ⟨r', drained, holds⟩ := h.drain limit
    have left : Owned.Sound ⟨(r.drain limit).ring, pushes⟩ := by
      rw [drained]
      exact ⟨c, _, positive, bounded, holds⟩
    exact .of_held left
  | peek look =>
    have left : Owned.Sound ⟨(r.peek look).ring, pushes⟩ := by
      rw [h.peek_ring look]
      exact unchanged
    exact .of_held left
  | request policy => exact .of_held (numbers_request positive bounded h policy)
  | settle made =>
    cases pushes with
    | nil => exact .of_held unchanged
    | cons evicted pushes => exact .of_held (numbers_settle positive bounded h made)
  | duplicate =>
    obtain ⟨-, copies⟩ := h.duplicate_conserves k
    have stays : (r.duplicate k).ring = r := by
      rw [h.duplicate_eq k]
      dsimp only
      split <;> rfl
    refine ⟨?_, ?_⟩
    · rintro _ ⟨⟩
      change Owned.Sound ⟨(r.duplicate k).ring, pushes⟩
      rw [stays]
      exact unchanged
    · intro ring made
      change (r.duplicate k).outcome.value? = some ring at made
      cases returned : (r.duplicate k).outcome with
      | returned copy =>
        rw [returned] at made
        obtain rfl : copy = ring := Option.some.inj made
        obtain ⟨contents, holds⟩ := copies copy returned
        exact ⟨c, contents, positive, bounded, holds⟩
      | aborted fault | waiting =>
        rw [returned] at made
        cases made
  | reserve capacity =>
    cases pushes with
    | nil => exact .of_held (numbers_reserve positive bounded h capacity.toNat)
    | cons evicted pushes => exact .of_held unchanged
  | clear =>
    cases pushes with
    | nil => exact .of_held (numbers_clear positive bounded h)
    | cons evicted pushes => exact .of_held unchanged
  | release =>
    cases pushes with
    | nil =>
      refine ⟨?_, ?_⟩
      · rintro _ ⟨⟩
      · rintro _ ⟨⟩
    | cons evicted pushes => exact .of_held unchanged

end Numbers

/-! ## Calls in words -/

section Words

variable {h : Owned (WordRing α) α}

/-- The words of a sound ring are at rest if a position is left that can be claimed. -/
theorem rests (sound : h.toNumbers.Sound) (small : h.toNumbers.ring.write < 2 ^ 64 - 1) :
    ∃ c entries, h.ring.Rests c entries h.pushes.length := by
  obtain ⟨c, entries, positive, bounded, holds⟩ := sound
  exact ⟨c, entries, holds, positive, bounded, small⟩

theorem performed_agrees {β : Type} {p : Outcome β × WordRing α} {call : Call α β}
    (agrees : WordRing.Agrees p call) (answer : Outcome β → RingAnswer α)
    (pushes : Outcome β → List (Option α)) :
    Performed.toNumbers ⟨answer p.1, some ⟨p.2, pushes p.1⟩, none⟩ =
      ⟨answer call.outcome, some ⟨call.ring, pushes call.outcome⟩, none⟩ := by
  obtain ⟨outcome, ring⟩ := agrees
  rw [← outcome, ← ring]
  rfl

/-- A call on words is the call on numbers. -/
theorem words_perform (k : EntryKind α) (sound : h.toNumbers.Sound)
    (small : h.toNumbers.ring.write < 2 ^ 64 - 1) (call : RingCall α) :
    Performed.toNumbers ((words k).perform h call) = (numbers k).perform h.toNumbers call := by
  obtain ⟨c, entries, rests⟩ := rests sound small
  obtain ⟨w, pushes⟩ := h
  change w.Rests c entries pushes.length at rests
  cases call with
  | len =>
    change Performed.mk (.count w.len.toNat) _ _ = ⟨.count w.toRing.len, _, _⟩
    rw [WordRing.len_toRing]
    rfl
  | front =>
    change Performed.mk (.entry (.returned w.front?)) _ _ =
      ⟨.entry (.returned w.toRing.front?), _, _⟩
    rw [WordRing.front?_toRing rests.holds]
    rfl
  | popFront =>
    exact performed_agrees (WordRing.popFront_toRing rests.holds rests.small) .entry fun _ => pushes
  | drain limit => exact performed_agrees (rests.drain_toRing limit) .entries fun _ => pushes
  | peek look => exact performed_agrees (rests.peek_toRing look) .entry fun _ => pushes
  | request policy =>
    exact performed_agrees (WordRing.request_toRing policy rests.holds rests.small) .room
      (Outcome.admitting pushes)
  | settle made =>
    cases pushes with
    | nil => rfl
    | cons evicted pushes =>
      exact performed_agrees (WordRing.settle_toRing evicted made rests.holds rests.small) .pushed
        fun _ => pushes
  | duplicate =>
    obtain ⟨outcome, ring⟩ := rests.duplicate_toRing k
    change Performed.mk (.done ((w.duplicate k).1.map fun _ => ()))
      (some ⟨(w.duplicate k).2.toRing, pushes⟩) ((w.duplicate k).1.value?.map WordRing.toRing) =
        ⟨.done ((w.toRing.duplicate k).outcome.map fun _ => ()),
        some ⟨(w.toRing.duplicate k).ring, pushes⟩, (w.toRing.duplicate k).outcome.value?⟩
    rw [← outcome, ← ring]
    cases (w.duplicate k).1 <;> rfl
  | reserve capacity =>
    cases pushes with
    | nil => exact performed_agrees (rests.reserve_toRing k capacity) .done fun _ => []
    | cons evicted pushes => rfl
  | clear =>
    cases pushes with
    | nil => exact performed_agrees (rests.clear_toRing k) .done fun _ => []
    | cons evicted pushes => rfl
  | release =>
    cases pushes with
    | nil =>
      exact congrArg (fun fault => Performed.mk (.released fault) none none)
        (rests.release_toRing k)
    | cons evicted pushes => rfl

/-- The arithmetic of a call on words has no flaw. -/
theorem checked_perform (k : EntryKind α) (sound : h.toNumbers.Sound)
    (small : h.toNumbers.ring.write < 2 ^ 64 - 1) (call : RingCall α) :
    (checked k).perform h call = pure ((words k).perform h call) := by
  obtain ⟨c, entries, rests⟩ := rests sound small
  obtain ⟨w, pushes⟩ := h
  change w.Rests c entries pushes.length at rests
  cases call with
  | len => rfl
  | front =>
    simp only [perform, checked, Checked.front?_eq rests, pure_bind]
    rfl
  | popFront =>
    simp only [perform, checked, Checked.popFront_eq rests, pure_bind]
    rfl
  | drain limit =>
    simp only [perform, checked, Checked.drain_eq limit rests, pure_bind]
    rfl
  | peek look =>
    simp only [perform, checked, Checked.peek_eq look rests, pure_bind]
    rfl
  | request policy =>
    simp only [perform, checked, Checked.request_eq policy rests, pure_bind]
    rfl
  | settle made =>
    cases pushes with
    | nil => rfl
    | cons evicted pushes =>
      simp only [perform, checked, Checked.settle_eq evicted made rests, pure_bind]
      rfl
  | duplicate =>
    simp only [perform, checked, Checked.duplicate_eq k rests, pure_bind]
    rfl
  | reserve capacity =>
    cases pushes with
    | nil =>
      simp only [perform, checked, Checked.reserve_eq k capacity rests, pure_bind]
      rfl
    | cons evicted pushes => rfl
  | clear =>
    cases pushes with
    | nil =>
      simp only [perform, checked, Checked.clear_eq k rests, pure_bind]
      rfl
    | cons evicted pushes => rfl
  | release =>
    cases pushes with
    | nil =>
      simp only [perform, checked, Checked.release_eq k rests, pure_bind]
      rfl
    | cons evicted pushes => rfl

end Words

end RingMachine

/-! ## Rings in a row -/

theorem Performed.Sound.update {p : Performed (Ring α) α} (sound : p.Sound)
    {rings : List (Owned (Ring α) α)} (others : ∀ held ∈ rings, held.Sound) (number : Nat) :
    ∀ held ∈ p.update number rings, held.Sound := by
  obtain ⟨answer, stays, copy⟩ := p
  intro held present
  simp only [Performed.update, List.mem_append, Option.mem_toList,
    Option.map_eq_some_iff] at present
  rcases present with old | ⟨ring, copied, rfl⟩
  · cases stays with
    | none => exact others held (List.mem_of_mem_eraseIdx old)
    | some left =>
      rcases List.mem_or_eq_of_mem_set old with other | rfl
      · exact others held other
      · exact sound.held held rfl
  · exact sound.copy ring copied

theorem Performed.toNumbers_update (p : Performed (WordRing α) α) (number : Nat)
    (rings : List (Owned (WordRing α) α)) :
    (p.update number rings).map Owned.toNumbers = p.toNumbers.update number
      (rings.map Owned.toNumbers) := by
  obtain ⟨answer, stays, copy⟩ := p
  have copies : (copy.map fun ring => (⟨ring, []⟩ : Owned (WordRing α) α)).toList.map
    Owned.toNumbers =
      ((copy.map WordRing.toRing).map fun ring => (⟨ring, []⟩ : Owned (Ring α) α)).toList := by
    cases copy <;> rfl
  cases stays with
  | none =>
    simp only [Performed.update, Performed.toNumbers, Option.map_none, List.map_append,
      List.eraseIdx_map, copies]
  | some left =>
    simp only [Performed.update, Performed.toNumbers, Option.map_some, List.map_append,
      List.map_set, copies]

namespace RingMachine

theorem numbers_create (k : EntryKind α) {capacity : Nat} {ring : Ring α}
    (made : (Ring.create k capacity).result = .ok ring) : Owned.Sound ⟨ring, []⟩ := by
  cases accepted : k.checkSlots capacity with
  | error fault =>
    simp only [Ring.create, accepted] at made
    cases made
  | ok _ =>
    have bounds := (k.checkSlots_eq_ok_iff capacity).mp accepted
    rw [Ring.create_eq accepted] at made
    cases made
    exact ⟨capacity, [], bounds.1, bounds.2.1, Ring.holds_empty capacity⟩

theorem numbers_fill (k : EntryKind α) {capacity : Nat} {a : α} {ring : Ring α}
    (made : (Ring.filled k capacity a).result = .ok ring) : Owned.Sound ⟨ring, []⟩ := by
  cases accepted : k.checkSlots capacity with
  | error fault =>
    simp only [Ring.filled, accepted] at made
    cases made
  | ok _ =>
    have bounds := (k.checkSlots_eq_ok_iff capacity).mp accepted
    cases failed : (k.cloning.cloneAll (.replicate (capacity - 1) a)).fault with
    | some fault =>
      simp only [Ring.filled, accepted, failed] at made
      cases made
    | none =>
      obtain ⟨full, count⟩ := k.cloning.cloneAll_all (Batch.full_replicate (capacity - 1) a) failed
      rw [Ring.filled_eq accepted a failed] at made
      cases made
      exact ⟨capacity, _, bounds.1, bounds.2.1, Ring.holds_ofBatch
        (Ring.fillBatch_full full count a) (Nat.le_refl _)⟩

theorem made_sound {rings : List (Owned (Ring α) α)} (others : ∀ held ∈ rings, held.Sound)
    {made : Except Fault (Ring α)} (sound : ∀ ring, made = .ok ring → Owned.Sound ⟨ring, []⟩) :
    ∀ held ∈ (RingRecord.made rings made).rings, held.Sound := by
  intro held present
  cases made with
  | error fault => exact others held present
  | ok ring =>
    rcases List.mem_append.mp present with old | new
    · exact others held old
    · rw [List.mem_singleton.mp new]
      exact sound ring rfl

/-- Whatever the move, the rings after it are sound. -/
theorem numbers_step (k : EntryKind α) {rings : List (Owned (Ring α) α)}
    (sound : ∀ held ∈ rings, held.Sound) (move : RingMove α) :
    ∀ held ∈ RingRecord.rings ((numbers k).step rings move), held.Sound := by
  cases move with
  | create capacity => exact made_sound sound fun ring made => numbers_create k made
  | fill capacity a => exact made_sound sound fun ring made => numbers_fill k made
  | call number call =>
    cases found : rings[number]? with
    | none =>
      simp only [step, found]
      exact sound
    | some held =>
      simp only [step, found]
      exact (numbers_perform k (sound held (List.mem_of_getElem? found)) call).update sound number

/-! ## Moves and runs in words -/

/-- Between two moves every ring is sound, and has a position left that can be claimed. -/
def Ready (rings : List (Owned (Ring α) α)) : Prop :=
  ∀ held ∈ rings, held.Sound ∧ held.ring.write < 2 ^ 64 - 1

theorem made_toNumbers (rings : List (Owned (WordRing α) α)) (made : Except Fault (WordRing α)) :
    (RingRecord.made rings made).toNumbers = .made (rings.map Owned.toNumbers)
      (made.map WordRing.toRing) := by
  cases made with
  | error fault => rfl
  | ok ring => exact congrArg (RingRecord.mk _) List.map_append

section Words

variable {rings : List (Owned (WordRing α) α)}

theorem words_step (k : EntryKind α) (ready : Ready (rings.map Owned.toNumbers))
    (move : RingMove α) :
    RingRecord.toNumbers ((words k).step rings move) = (numbers k).step (rings.map Owned.toNumbers)
      move := by
  cases move with
  | create capacity =>
    exact (made_toNumbers rings _).trans
      (congrArg (RingRecord.made _) (WordRing.create_toRing k capacity))
  | fill capacity a =>
    exact (made_toNumbers rings _).trans
      (congrArg (RingRecord.made _) (WordRing.filled_toRing k capacity a))
  | call number call =>
    cases found : rings[number]? with
    | none =>
      simp only [step, List.getElem?_map, found]
      rfl
    | some held =>
      obtain ⟨sound, small⟩ := ready held.toNumbers
        (List.mem_map_of_mem (List.mem_of_getElem? found))
      have performed := words_perform k sound small call
      simp only [step, List.getElem?_map, found, Option.map_some, ← performed]
      exact congrArg (RingRecord.mk _) (Performed.toNumbers_update _ number rings)

theorem checked_step (k : EntryKind α) (ready : Ready (rings.map Owned.toNumbers))
    (move : RingMove α) : (checked k).step rings move = pure ((words k).step rings move) := by
  cases move with
  | create capacity => rfl
  | fill capacity a =>
    simp only [step, checked, Checked.filled_eq, pure_bind]
    rfl
  | call number call =>
    cases found : rings[number]? with
    | none =>
      simp only [step, found]
      rfl
    | some held =>
      obtain ⟨sound, small⟩ := ready held.toNumbers
        (List.mem_map_of_mem (List.mem_of_getElem? found))
      simp only [step, found, checked_perform k sound small call, pure_bind]
      rfl

theorem run_cons {m : Type → Type} {ρ : Type} [Monad m] (machine : RingMachine m ρ α)
    (rings : List (Owned ρ α)) (move : RingMove α) (moves : List (RingMove α)) :
    machine.run rings (move :: moves) = (do
      let record ← machine.step rings move
      let records ← machine.run record.rings moves
      return record :: records) := rfl

theorem run_exact (k : EntryKind α) (moves : List (RingMove α))
    (ready : Ready (rings.map Owned.toNumbers))
    (below : ∀ record ∈ Id.run ((numbers k).run (rings.map Owned.toNumbers) moves),
      ∀ held ∈ record.rings, held.ring.write < 2 ^ 64 - 1) :
    (checked k).run rings moves = .ok ((words k).run rings moves) ∧
      (Id.run ((words k).run rings moves)).map RingRecord.toNumbers =
        (numbers k).run (rings.map Owned.toNumbers) moves ∧
      ∀ record ∈ Id.run ((words k).run rings moves), Ready (record.rings.map Owned.toNumbers) := by
  induction moves generalizing rings with
  | nil =>
    refine ⟨rfl, rfl, ?_⟩
    rintro record ⟨⟩
  | cons move moves ih =>
    let record : RingRecord (WordRing α) α := (words k).step rings move
    have number : record.toNumbers = (numbers k).step (rings.map Owned.toNumbers) move :=
      words_step k ready move
    have numbers_run : (numbers k).run (rings.map Owned.toNumbers) (move :: moves) =
        record.toNumbers :: Id.run ((numbers k).run record.toNumbers.rings moves) := by
      rw [number]
      rfl
    rw [numbers_run] at below
    obtain ⟨small, below⟩ := List.forall_mem_cons.mp below
    -- The rings after the move are sound in numbers, and these are the rings in words.
    have next : Ready (record.rings.map Owned.toNumbers) := by
      intro held present
      refine ⟨?_, small held present⟩
      have sound := numbers_step k (fun held present => (ready held present).1) move
      rw [← number] at sound
      exact sound held present
    obtain ⟨checks, words_run, readies⟩ := ih next below
    refine ⟨?_, ?_, ?_⟩
    · rw [run_cons, checked_step k ready move, pure_bind]
      change (checked k).run record.rings moves >>= _ = _
      rw [checks]
      rfl
    · rw [numbers_run]
      exact congrArg (record.toNumbers :: ·) words_run
    · exact List.forall_mem_cons.mpr ⟨next, readies⟩

end Words

/-! ## Main result -/

/-- In numbers `write` counts the positions of a ring that were filled when its cursors were set,
and those claimed since. As long as this count stays below the greatest word, no arithmetic in a run
has a flaw, and move by move the run in words has the answers and the rings of the run in numbers.
Between the moves no front is marked as pinned, and all claimed positions are published. -/
theorem word_runs_exact (k : EntryKind α) (moves : List (RingMove α))
    (below : ∀ record ∈ Id.run ((numbers k).run [] moves),
      ∀ held ∈ record.rings, held.ring.write < 2 ^ 64 - 1) :
    (checked k).run [] moves = .ok ((words k).run [] moves) ∧
      (Id.run ((words k).run [] moves)).map RingRecord.toNumbers = (numbers k).run [] moves ∧
      ∀ record ∈ Id.run ((words k).run [] moves), ∀ held ∈ record.rings,
        held.ring.read ≠ WordRing.pinMark ∧ held.ring.visible = held.ring.write := by
  have ready : Ready (([] : List (Owned (WordRing α) α)).map Owned.toNumbers) := by
    rintro held ⟨⟩
  obtain ⟨checks, numbers_run, readies⟩ := run_exact k moves ready below
  refine ⟨checks, numbers_run, ?_⟩
  intro record recorded held present
  obtain ⟨sound, small⟩ := readies record recorded held.toNumbers (List.mem_map_of_mem present)
  obtain ⟨c, entries, rests⟩ := rests sound small
  exact ⟨(WordRing.toRing_read rests.holds).1, rests.read_add.2.1⟩

/-- A run with all calls: a constructor that breaks off, pushes that are denied, that evict and that
wait, a copy, a ring that grows with its entries around its end, and rings that are cleared, filled
and released. -/
def everyCall : List (RingMove Nat) :=
  [.create 0, .create 2, .call 0 (.request .reject), .call 0 (.settle (.ok 1)),
    .call 0 (.request .block), .call 0 (.settle (.error .constructorFailed)),
    .call 0 (.request .reject), .call 0 (.settle (.ok 2)), .call 0 (.request .reject),
    .call 0 (.request .block), .call 0 (.request .overwrite), .call 0 .clear,
      .call 0 (.settle (.ok 3)),
    .call 0 .len, .call 0 .front, .call 0 (.peek .ok), .call 0 .duplicate, .call 0 (.reserve 5),
    .call 0 .popFront, .call 1 (.drain none), .call 1 .release, .fill 3 4, .call 1 .clear,
    .call 1 (.request .overwrite), .call 1 (.settle (.ok 5)), .call 0 .release]

theorem word_runs_exact_through_every_call :
    (∀ record ∈ Id.run ((numbers .plain).run [] everyCall),
      ∀ held ∈ record.rings, held.ring.write < 2 ^ 64 - 1) ∧
    (checked .plain).run [] everyCall = .ok ((words .plain).run [] everyCall) ∧
    (Id.run ((words .plain).run [] everyCall)).map RingRecord.toNumbers = (numbers .plain).run
      [] everyCall :=
  have below : ∀ record ∈ Id.run ((numbers .plain).run [] everyCall),
      ∀ held ∈ record.rings, held.ring.write < 2 ^ 64 - 1 := by decide +kernel
  ⟨below, (word_runs_exact .plain everyCall below).1, (word_runs_exact .plain everyCall below).2.1⟩

end RingMachine

end RingQueue
