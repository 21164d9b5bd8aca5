import RingQueue.Config.Document
import RingQueue.Proofs.Ring.Fifo
import RingQueue.Proofs.Ring.Whole
import RingQueue.Session.Run

/-!
Which settings make a queue.

Settings are checked before a queue is made from them, and a ring checks its capacity again. Both
checks come to the same (`checkCapacity_eq`): settings that are not valid are refused everywhere for
the same reason, before a block is taken or anything is reported. Valid ones make a new queue
wherever they are used, unless the slots are too large for a block, of which settings know nothing
(`constructors_follow_validation`).
-/
namespace RingQueue

variable {α β : Type}

/-! ## Two checks -/

/-- The fault with which a constructor breaks off where settings are refused with this error. -/
def ConfigError.fault : ConfigError → CapacityFault
  | zeroCapacity => .zero
  | capacityTooLarge requested => .tooLarge requested

namespace Config

variable {c : Config} {e : ConfigError} {k : EntryKind α}

theorem checkCapacity_eq (c : Config) : checkCapacity c.capacity = c.validate.mapError
    ConfigError.fault := by
  unfold checkCapacity validate
  split
  · rfl
  · split <;> rfl

theorem validate_eq_zeroCapacity_iff : c.validate = .error .zeroCapacity ↔ c.capacity = 0 := by
  unfold validate
  split
  · simp_all
  · split <;> simp_all

theorem validate_eq_capacityTooLarge_iff (requested : Nat) :
    c.validate = .error (.capacityTooLarge requested) ↔ requested = c.capacity ∧
      maxCapacity < requested := by
  unfold validate
  split
  · simp; omega
  · split
    · simp; omega
    · simp; omega

/-- What a ring looks at before it takes a block comes to the check of the settings and the size of
the slots. -/
theorem checkSlots_eq (k : EntryKind α) (c : Config) :
    k.checkSlots c.capacity =
      match c.validate with
      | .error e => .error (.capacity e.fault)
      | .ok () => if k.HasBlock c.capacity then .ok () else .error .layoutOverflow := by
  rw [EntryKind.checkSlots, checkCapacity_eq]
  cases c.validate <;> rfl

/-! ## The ways in which constructors go -/

/-- Where the slots are refused, so are rings and queues, and nothing else is done. -/
theorem create_refused {fault : Fault} (refused : k.checkSlots c.capacity = .error fault)
    (policy : Policy) :
    Ring.create k c.capacity = ⟨.error fault, []⟩ ∧
    PolicyQueue.create k c.capacity policy = ⟨.error fault, []⟩ := by
  have ring : Ring.create k c.capacity = ⟨.error fault, []⟩ := by rw [Ring.create, refused]
  refine ⟨ring, ?_⟩
  rw [PolicyQueue.create, ring]
  rfl

/-- Invalid settings are refused by every constructor, which does nothing else. -/
theorem refused (k : EntryKind α) (policy : Policy) (invalid : c.validate = .error e) :
    PolicyQueue.ofConfig k c = .error e ∧
    Ring.create k c.capacity = ⟨.error (.capacity e.fault), []⟩ ∧
    PolicyQueue.create k c.capacity policy = ⟨.error (.capacity e.fault), []⟩ := by
  have excluded : k.checkSlots c.capacity = .error (.capacity e.fault) := by
    rw [checkSlots_eq, invalid]
  exact ⟨by rw [PolicyQueue.ofConfig, invalid], create_refused excluded policy⟩

/-- Where there is no block for the slots, every constructor breaks off. One that was given settings
has reported them before. -/
theorem blockless (policy : Policy) (valid : c.validate = .ok ())
    (overflow : ¬ k.HasBlock c.capacity) :
    PolicyQueue.ofConfig k c =
      .ok ⟨.error .layoutOverflow, [.reported (.queueConfigured c.capacity c.policy)]⟩ ∧
    Ring.create k c.capacity = ⟨.error .layoutOverflow, []⟩ ∧
    PolicyQueue.create k c.capacity policy = ⟨.error .layoutOverflow, []⟩ := by
  have excluded : k.checkSlots c.capacity = .error .layoutOverflow := by
    rw [checkSlots_eq, valid]
    exact if_neg overflow
  refine ⟨?_, create_refused excluded policy⟩
  rw [PolicyQueue.ofConfig, valid]
  simp only [(create_refused excluded _).2]

/-- What is done for a new ring of so many slots. -/
def creationLog (k : EntryKind α) (capacity : Nat) : List (Effect α) :=
  k.allocate capacity ++ [.reported (.ringCreated capacity)]

/-- Otherwise valid settings make a new queue in every constructor. -/
theorem accepted (policy : Policy) (valid : c.validate = .ok ()) (block : k.HasBlock c.capacity) :
    PolicyQueue.ofConfig k c = .ok ⟨.ok ⟨.empty c.capacity, .chosen c.policy⟩,
      .reported (.queueConfigured c.capacity c.policy) :: creationLog k c.capacity⟩ ∧
    Ring.create k c.capacity = ⟨.ok (.empty c.capacity), creationLog k c.capacity⟩ ∧
    PolicyQueue.create k c.capacity policy =
      ⟨.ok ⟨.empty c.capacity, policy⟩, creationLog k c.capacity⟩ := by
  have included : k.checkSlots c.capacity = .ok () := by
    rw [checkSlots_eq, valid]
    exact if_pos block
  have ring : Ring.create k c.capacity = ⟨.ok (.empty c.capacity), creationLog k c.capacity⟩ := by
    rw [Ring.create, included, creationLog]
  refine ⟨?_, ring, ?_⟩
  · rw [PolicyQueue.ofConfig, valid, PolicyQueue.create, ring]
    rfl
  · rw [PolicyQueue.create, ring]
    rfl

end Config

/-- A new ring holds nothing, and its observers show that. -/
structure Ring.IsNew (r : Ring α) (capacity : Nat) : Prop where
  represents : r.Represents ⟨capacity, []⟩
  nothing_unread : r.unread = []
  shown : r.view = ⟨0, capacity, true, false⟩

theorem Config.empty_isNew {c : Config} (valid : c.validate = .ok ()) :
    (Ring.empty c.capacity : Ring α).IsNew c.capacity := by
  have positive := ((validate_eq_ok_iff c).mp valid).1
  have holds := Ring.holds_empty (α := α) c.capacity
  have represents : (Ring.empty c.capacity : Ring α).Represents ⟨c.capacity, []⟩ :=
    ⟨positive, holds⟩
  refine ⟨represents, holds.unread, ?_⟩
  rw [represents.view]
  simp [Fifo.view, Fifo.isFull]
  omega

/-! ## Main result -/

/-- A constructor makes something or breaks off as the settings say, and for slots without a block.
-/
structure Config.Governs (c : Config) (k : EntryKind α) (result : Except Fault β) : Prop where
  made_iff : (∃ b, result = .ok b) ↔ c.validate = .ok () ∧ k.HasBlock c.capacity
  -- Each error belongs to one fault.
  refused_iff : ∀ e : ConfigError, result = .error (.capacity e.fault) ↔ c.validate = .error e
  blockless_iff : result = .error .layoutOverflow ↔ c.validate = .ok () ∧ ¬ k.HasBlock c.capacity

namespace Config.Governs

variable {c : Config} {k : EntryKind α}

theorem refused {e : ConfigError} (invalid : c.validate = .error e) :
    c.Governs k (.error (.capacity e.fault) : Except Fault β) where
  made_iff := by simp [invalid]
  refused_iff := by
    intro e'
    rw [invalid]
    -- Different errors belong to different faults.
    cases e <;> cases e' <;> simp [ConfigError.fault]
  blockless_iff := by simp [invalid]

theorem blockless (valid : c.validate = .ok ()) (overflow : ¬ k.HasBlock c.capacity) :
    c.Governs k (.error .layoutOverflow : Except Fault β) where
  made_iff := by simp [overflow]
  refused_iff := by simp [valid]
  blockless_iff := by simp [valid, overflow]

theorem made (valid : c.validate = .ok ()) (block : k.HasBlock c.capacity) (b : β) :
    c.Governs k (.ok b) where
  made_iff := by simp [valid, block]
  refused_iff := by simp [valid]
  blockless_iff := by simp [block]

end Config.Governs

/-- Settings are taken or refused alike wherever a queue is made from them. -/
structure Config.ConstructsAlike (k : EntryKind α) (policy : Policy) (c : Config) : Prop where
  refused_iff : ∀ e, PolicyQueue.ofConfig k c = .error e ↔ c.validate = .error e
  configured : ∀ built, PolicyQueue.ofConfig k c = .ok built → c.Governs k built.result
  ring : c.Governs k (Ring.create k c.capacity).result
  queue : c.Governs k (PolicyQueue.create k c.capacity policy).result
  zero_iff : c.validate = .error .zeroCapacity ↔ c.capacity = 0
  too_large_iff : ∀ requested, c.validate = .error (.capacityTooLarge requested) ↔
    requested = c.capacity ∧ maxCapacity < requested
  -- What is made is empty and has the capacity and the policy that were asked for.
  configured_new : ∀ built, PolicyQueue.ofConfig k c = .ok built → ∀ q, built.result = .ok q →
    q.ring.IsNew c.capacity ∧ q.policy = .chosen c.policy
  ring_new : ∀ r, (Ring.create k c.capacity).result = .ok r → r.IsNew c.capacity
  queue_new : ∀ q, (PolicyQueue.create k c.capacity policy).result = .ok q →
    q.ring.IsNew c.capacity ∧ q.policy = policy
  -- A constructor that breaks off has done nothing before, but that settings have been reported.
  configured_silent : ∀ built, PolicyQueue.ofConfig k c = .ok built →
    ∀ fault, built.result = .error fault →
    built.effects = [.reported (.queueConfigured c.capacity c.policy)]
  ring_silent : ∀ fault, (Ring.create k c.capacity).result = .error fault →
    (Ring.create k c.capacity).effects = []
  queue_silent : ∀ fault, (PolicyQueue.create k c.capacity policy).result = .error fault →
    (PolicyQueue.create k c.capacity policy).effects = []

theorem Config.constructsAlike (k : EntryKind α) (policy : Policy)
    (c : Config) : c.ConstructsAlike k policy := by
  -- What the two errors mean does not depend on how the check ends.
  have zero : c.validate = .error .zeroCapacity ↔ c.capacity = 0 := validate_eq_zeroCapacity_iff
  have large := @validate_eq_capacityTooLarge_iff c
  cases validated : c.validate with
  | error e =>
    obtain ⟨configured, ring, queue⟩ := refused k policy validated
    rw [validated] at zero large
    constructor <;> simp [configured, ring, queue, validated, zero, large, eq_comm,
      Governs.refused validated]
  | ok valid =>
    by_cases block : k.HasBlock c.capacity
    · obtain ⟨configured, ring, queue⟩ := accepted policy validated block
      have new : (Ring.empty c.capacity : Ring α).IsNew c.capacity := empty_isNew validated
      rw [validated] at zero large
      constructor <;> simp [configured, ring, queue, validated, zero, large, new,
        Governs.made validated block]
    · obtain ⟨configured, ring, queue⟩ := blockless policy validated block
      rw [validated] at zero large
      constructor <;> simp [configured, ring, queue, validated, zero, large,
        Governs.blockless validated block]

/-- Settings, however they came about, make a queue where they are valid and there is a block for
its slots, and nowhere else. Where they are not valid, a session answers the error of the settings,
or breaks off with the fault that belongs to it; where there is no block, it breaks off for that. In
each case it stays as it was. -/
theorem constructors_follow_validation :
    (∀ (k : EntryKind α) (policy : Policy) (c : Config), c.ConstructsAlike k policy) ∧
    ∀ (setup : Session.Setup α) (s : Session α) (name : String) (c : Config)
      (asked : OverflowPolicy),
      (∀ e : ConfigError, c.validate = .error e →
        s.create setup name (.policyQueue (.ofConfig c)) = ⟨s, .configured (.error e), []⟩ ∧
        s.create setup name (.policyQueue (.ofCapacity c.capacity asked)) =
          ⟨s, .aborted (.capacity e.fault), []⟩ ∧
        s.create setup name (.queue (.ofCapacity c.capacity)) =
          ⟨s, .aborted (.capacity e.fault), []⟩) ∧
      (c.validate = .ok () → ¬ setup.kind.HasBlock c.capacity →
        s.create setup name (.policyQueue (.ofConfig c)) =
          ⟨s, .aborted .layoutOverflow, [.reported (.queueConfigured c.capacity c.policy)]⟩ ∧
        s.create setup name (.policyQueue (.ofCapacity c.capacity asked)) =
          ⟨s, .aborted .layoutOverflow, []⟩ ∧
        s.create setup name (.queue (.ofCapacity c.capacity)) =
          ⟨s, .aborted .layoutOverflow, []⟩) := by
  refine ⟨Config.constructsAlike, fun setup s name c asked =>
    ⟨fun e invalid => ?_, fun valid overflow => ?_⟩⟩
  · obtain ⟨configured, ring, queue⟩ := Config.refused setup.kind (setup.policy asked) invalid
    simp only [Session.create, configured, ring, queue]
    exact ⟨rfl, rfl, rfl⟩
  · obtain ⟨configured, ring, queue⟩ := Config.blockless (setup.policy asked) valid overflow
    simp only [Session.create, configured, ring, queue]
    exact ⟨rfl, rfl, rfl⟩

/-- One slot more than there can be, read from a document: the settings are refused, the constructor
breaks off with the same number, and the session with a queue is as it was. -/
theorem constructors_follow_validation_above_maximum :
    let c : Config := ⟨4294967295, .reject⟩
    let setup : Session.Setup Nat := ⟨.plain, none, .endless⟩
    let s := (Session.Step.runAll setup [.create "q" (.queue (.ofCapacity 2))] .empty).1
    Config.Document.decode (.object [("policy", .string "reject"),
      ("capacity", .integer 4294967295)]) = .ok c ∧
      c.validate = .error (.capacityTooLarge 4294967295) ∧ s.blocks = ⟨1, 1⟩ ∧
      (∀ built, PolicyQueue.ofConfig setup.kind c ≠ .ok built) ∧
      s.create setup "p" (.policyQueue (.ofConfig c)) =
        ⟨s, .configured (.error (.capacityTooLarge 4294967295)), []⟩ ∧
      s.create setup "p" (.queue (.ofCapacity 4294967295)) =
        ⟨s, .aborted (.capacity (.tooLarge 4294967295)), []⟩ := by
  intro c setup s
  obtain ⟨alike, sessions⟩ := @constructors_follow_validation Nat
  have invalid : c.validate = .error (.capacityTooLarge 4294967295) := rfl
  obtain ⟨configured, -, created⟩ := (sessions setup s "p" c .reject).1 _ invalid
  refine ⟨rfl, invalid, by decide +kernel, ?_, configured, created⟩
  intro built made
  rw [((alike setup.kind (.chosen c.policy) c).refused_iff _).mpr invalid] at made
  cases made

/-- Valid settings of a queue whose slots have more bytes than a block can have: a constructor that
is given them reports them and breaks off, and so do the others, which report nothing. -/
theorem valid_settings_without_a_block :
    let c : Config := ⟨2147483648, .block⟩
    let k : EntryKind Unit := { EntryKind.plain with slotBytes := 4294967296 }
    c.validate = .ok () ∧
      PolicyQueue.ofConfig k c =
        .ok ⟨.error .layoutOverflow, [.reported (.queueConfigured 2147483648 .block)]⟩ ∧
      PolicyQueue.create k 2147483648 (.chosen .block) = ⟨.error .layoutOverflow, []⟩ ∧
      Ring.create k 2147483648 = ⟨.error .layoutOverflow, []⟩ := by
  intro c k
  have valid : c.validate = .ok () := rfl
  have overflow : ¬ k.HasBlock c.capacity := by decide
  obtain ⟨configured, ring, queue⟩ := Config.blockless (.chosen .block) valid overflow
  exact ⟨valid, configured, queue, ring⟩

end RingQueue
