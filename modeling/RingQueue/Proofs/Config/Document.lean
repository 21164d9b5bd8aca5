import RingQueue.Config.Document

/-!
Settings as JSON values: all forms of the same settings are read alike, and each form that is read
is written in the usual one.

A reader that meets the members of an object one after the other, in the order of their names, and
passes over those that it does not know, comes to the same settings or the same fault as `decode`
(`visit_eq`). What it knows of an object is therefore the two members only (`decode_object`),
whatever their order.
-/
namespace RingQueue

/-! ## Members -/

namespace Json

variable {name other : String} {members : List (String × Json)} {value : Json}

/-- The members without those of a name. -/
def removeMember (name : String) (members : List (String × Json)) : List (String × Json) :=
  members.filter fun m => m.1 ≠ name

theorem lookup_eq_none_iff : lookup name members = none ↔ ∀ m ∈ members, m.1 ≠ name := by
  induction members with
  | nil => simp [lookup]
  | cons m rest ih =>
    obtain ⟨first, v⟩ := m
    by_cases same : first = name
    · simp [lookup, same]
    · simp [lookup, same, ih]

/-- Among members of distinct names each is found under its own. -/
theorem lookup_eq_some_iff (distinct : members.Pairwise fun m n => m.1 ≠ n.1) :
    lookup name members = some value ↔ (name, value) ∈ members := by
  induction members with
  | nil => simp [lookup]
  | cons m rest ih =>
    obtain ⟨first, v⟩ := m
    obtain ⟨others, distinct⟩ := List.pairwise_cons.mp distinct
    by_cases same : first = name
    · subst same
      have single : (first, value) ∉ rest := fun again => others _ again rfl
      simp [lookup, single, eq_comm]
    · have different : ¬ name = first := fun eq => same eq.symm
      simp [lookup, same, different, ih distinct]

/-- The order of members does not matter as long as their names are distinct. -/
theorem lookup_perm {arranged : List (String × Json)} (perm : arranged.Perm members)
    (distinct : arranged.Pairwise fun m n => m.1 ≠ n.1) (name : String) :
    lookup name arranged = lookup name members := by
  have distinct' : members.Pairwise fun m n => m.1 ≠ n.1 :=
    (perm.pairwise_iff fun different same => different same.symm).mp distinct
  apply Option.ext
  intro value
  rw [lookup_eq_some_iff distinct, lookup_eq_some_iff distinct', perm.mem_iff]

theorem lookup_setMember_of_ne (different : name ≠ other) (value : Json)
    (members : List (String × Json)) :
    lookup other (setMember name value members) = lookup other members := by
  induction members with
  | nil => simp [setMember, lookup, different]
  | cons m rest ih =>
    obtain ⟨first, v⟩ := m
    by_cases same : first = name
    · subst same
      simp [setMember, lookup, different]
    · simp [setMember, lookup, same, ih]

theorem lookup_removeMember_of_ne (different : name ≠ other) (members : List (String × Json)) :
    lookup other (removeMember name members) = lookup other members := by
  induction members with
  | nil => rfl
  | cons m rest ih =>
    obtain ⟨first, v⟩ := m
    by_cases same : first = name
    · subst same
      rw [removeMember, List.filter_cons_of_neg (by simp), lookup, if_neg different]
      exact ih
    · rw [removeMember, List.filter_cons_of_pos (by simpa using same), lookup, lookup]
      exact congrArg _ ih

end Json

namespace Config.Document

variable {members : List (String × Json)}

/-! ## Visiting members one after the other -/

/-- The parts of settings that have been met so far. -/
structure Parts where
  capacity : Option Nat
  policy : Option OverflowPolicy

namespace Parts

def nothing : Parts := ⟨none, none⟩

/-- A member adds its part. One of another name is passed over, whatever its value is. -/
def meet (parts : Parts) (member : String × Json) : Except Fault Parts :=
  if member.1 = "capacity" then
    (decodeCapacity member.2).map fun capacity => { parts with capacity := some capacity }
  else if member.1 = "policy" then
    (decodePolicy member.2).map fun policy => { parts with policy := some policy }
  else .ok parts

/-- Parts that were not met take their defaults. -/
def config (parts : Parts) : Config :=
  ⟨parts.capacity.getD Config.default.capacity, parts.policy.getD Config.default.policy⟩

end Parts

/-- Settings from members that are met in this order, when some parts have been met before. The
first fault ends the visit. -/
def visit (parts : Parts) : List (String × Json) → Except Fault Config
  | [] => .ok parts.config
  | member :: rest =>
    match parts.meet member with
    | .error fault => .error fault
    | .ok parts => visit parts rest

/-- Members of other names add nothing. -/
theorem visit_others (parts : Parts) (others : ∀ m ∈ members, m.1 ≠ "capacity" ∧ m.1 ≠ "policy") :
    visit parts members = .ok parts.config := by
  induction members with
  | nil => rfl
  | cons m rest ih =>
    obtain ⟨⟨no_capacity, no_policy⟩, others⟩ := List.forall_mem_cons.mp others
    rw [visit, Parts.meet, if_neg no_capacity, if_neg no_policy]
    exact ih others

/-- Members of which none is a capacity only add a policy. -/
theorem visit_policy (capacity : Option Nat) (absent : ∀ m ∈ members, m.1 ≠ "capacity")
    (distinct : members.Pairwise fun m n => m.1 ≠ n.1) :
    visit ⟨capacity, none⟩ members =
      (decodePolicy? (Json.lookup "policy" members)).map fun policy =>
        ⟨capacity.getD Config.default.capacity, policy⟩ := by
  induction members with
  | nil => rfl
  | cons m rest ih =>
    obtain ⟨name, v⟩ := m
    obtain ⟨no_capacity, absent⟩ := List.forall_mem_cons.mp absent
    obtain ⟨others, distinct⟩ := List.pairwise_cons.mp distinct
    by_cases same : name = "policy"
    · rw [visit, Parts.meet, if_neg no_capacity, if_pos same, Json.lookup, if_pos same,
        decodePolicy?]
      cases decodePolicy v with
      | error fault => rfl
      | ok policy =>
        -- No later member is a policy again.
        exact visit_others _ fun m member => ⟨absent m member, same ▸ (others m member).symm⟩
    · rw [visit, Parts.meet, if_neg no_capacity, if_neg same, Json.lookup, if_neg same]
      exact ih absent distinct

/-- In the order of the names the capacity is met before the policy, and nothing else counts. -/
theorem visit_sorted (sorted : members.Pairwise fun m n => m.1 < n.1) :
    visit .nothing members = decode (.object members) := by
  rw [decode, decodeParts]
  induction members with
  | nil => rfl
  | cons m rest ih =>
    obtain ⟨name, v⟩ := m
    have distinct : ((name, v) :: rest).Pairwise fun m n => m.1 ≠ n.1 :=
      sorted.imp fun {m n} less (same : m.1 = n.1) => String.lt_irrefl n.1 (same ▸ less)
    obtain ⟨behind, sorted⟩ := List.pairwise_cons.mp sorted
    by_cases capacity : name = "capacity"
    · subst capacity
      obtain ⟨others, distinct⟩ := List.pairwise_cons.mp distinct
      rw [visit, Parts.meet, if_pos rfl, Json.lookup, if_pos rfl, Json.lookup, if_neg (by decide),
        decodeCapacity?]
      cases decodeCapacity v with
      | error fault => rfl
      | ok n =>
        refine (visit_policy (some n) (fun m member => (others m member).symm) distinct).trans ?_
        cases decodePolicy? (Json.lookup "policy" rest) <;> rfl
    · by_cases policy : name = "policy"
      · subst policy
        have absent : ∀ m ∈ ("policy", v) :: rest, m.1 ≠ "capacity" := by
          refine List.forall_mem_cons.mpr ⟨capacity, fun m member same => ?_⟩
          -- All names behind this one are greater.
          have greater : "policy" < "capacity" := same ▸ behind m member
          exact absurd greater (by decide)
        refine (visit_policy none absent distinct).trans ?_
        rw [Json.lookup_eq_none_iff.mpr absent, decodeCapacity?]
        cases decodePolicy? (Json.lookup "policy" (("policy", v) :: rest)) <;> rfl
      · rw [visit, Parts.meet, if_neg capacity, if_neg policy, Json.lookup, if_neg capacity,
          Json.lookup, if_neg policy]
        exact ih sorted

/-- Members are read as if they were met in the order of their names. -/
theorem visit_eq {arranged : List (String × Json)} (perm : arranged.Perm members)
    (sorted : arranged.Pairwise fun m n => m.1 < n.1) : visit .nothing arranged =
    decode (.object members) := by
  have distinct : arranged.Pairwise fun m n => m.1 ≠ n.1 :=
    sorted.imp fun {m n} less (same : m.1 = n.1) => String.lt_irrefl n.1 (same ▸ less)
  rw [visit_sorted sorted, decode, decode, Json.lookup_perm perm distinct,
    Json.lookup_perm perm distinct]

/-! ## Objects and arrays -/

/-- What an object says of the capacity. -/
def capacityOf (members : List (String × Json)) : Json :=
  (Json.lookup "capacity" members).getD (.integer 16)

/-- What an object says of the policy. -/
def policyOf (members : List (String × Json)) : Json :=
  (Json.lookup "policy" members).getD (.string "block")

/-- Of an object only two members count, and an absent one stands for its default. -/
theorem decode_object (members : List (String × Json)) :
    decode (.object members) =
      decode (.object [("capacity", capacityOf members), ("policy", policyOf members)]) := by
  have capacity : decodeCapacity? (Json.lookup "capacity" members) = decodeCapacity?
    (some (capacityOf members)) := by
    cases found : Json.lookup "capacity" members <;> simp only [capacityOf, found] <;> rfl
  have policy : decodePolicy? (Json.lookup "policy" members) = decodePolicy?
    (some (policyOf members)) := by
    cases found : Json.lookup "policy" members <;> simp only [policyOf, found] <;> rfl
  change decodeParts _ _ = decodeParts (some (capacityOf members)) (some (policyOf members))
  simp only [decodeParts, capacity, policy]

/-- Objects that say the same of the capacity and of the policy are read alike. -/
theorem decode_congr {others : List (String × Json)}
    (capacity : capacityOf members = capacityOf others)
    (policy : policyOf members = policyOf others) : decode (.object members) =
    decode (.object others) := by
  rw [decode_object members, decode_object others, capacity, policy]

/-- An array of at most two items is read like the object in which they have their names. -/
theorem decode_array {items : List Json} (short : items.length ≤ 2) :
    decode (.array items) = decode (.object (["capacity", "policy"].zip items)) := by
  have parts : decode (.array items) = decodeParts items[0]? items[1]? := by
    rw [decode]
    cases decodeParts items[0]? items[1]? with
    | error fault => rfl
    | ok config => exact if_neg (by omega)
  rw [parts]
  match items, short with
  | [], _ => rfl
  | [capacity], _ => rfl
  | [capacity, policy], _ => rfl

/-! ## Policies -/

/-- A policy may be named in the long form, whether or not there is one of that name. -/
theorem decodePolicy_long (name : String) : decodePolicy (.object [(name, .null)]) = decodePolicy
    (.string name) := by
  simp only [decodePolicy]
  cases policyNamed name <;> rfl

theorem decodePolicy_encodePolicy (p : OverflowPolicy) : decodePolicy (encodePolicy p) = .ok p := by
  simp only [encodePolicy, decodePolicy, policyNamed, OverflowPolicy.ofName?_name]

/-! ## What is written -/

theorem decode_encode (c : Config) : decode (encode c) = .ok c := by
  have capacity : decodeCapacity (.ofNat c.capacity) = .ok c.capacity := by
    simp only [Json.ofNat, decodeCapacity]
    rw [if_neg (by omega), Int.toNat_natCast]
  change decodeParts (some (.ofNat c.capacity)) (some (encodePolicy c.policy)) = .ok c
  simp only [decodeParts, decodeCapacity?, decodePolicy?, capacity, decodePolicy_encodePolicy]

/-! ## Main result -/

/-- Settings are read back from what is written. An object is read in the order of its names, and
only its capacity and its policy count, of which an absent one is 16 or `block`. Short arrays and
the long form of policies are read like the objects and names for which they stand, faults included.
Whatever is read is written in the usual form, from which the same is read again. -/
theorem forms_read_alike :
    (∀ c, decode (encode c) = .ok c) ∧
    (∀ members arranged : List (String × Json), arranged.Perm members →
      (arranged.Pairwise fun m n => m.1 < n.1) →
      visit .nothing arranged = decode (.object members)) ∧
    (∀ members, decode (.object members) =
      decode (.object [("capacity", (Json.lookup "capacity" members).getD (.integer 16)),
        ("policy", (Json.lookup "policy" members).getD (.string "block"))])) ∧
    (∀ members name value, name ≠ "capacity" → name ≠ "policy" →
      decode (.object (Json.setMember name value members)) = decode (.object members) ∧
        decode (.object (Json.removeMember name members)) = decode (.object members)) ∧
    (∀ items : List Json, items.length ≤ 2 →
      decode (.array items) = decode (.object (["capacity", "policy"].zip items))) ∧
    (∀ name, decodePolicy (.object [(name, .null)]) = decodePolicy (.string name)) ∧
    (∀ members name, decode (.object (Json.setMember "policy" (.object [(name, .null)]) members)) =
      decode (.object (Json.setMember "policy" (.string name) members))) ∧
    ∀ v c, decode v = .ok c →
      encode c = .object [("capacity", .integer c.capacity), ("policy", .string c.policy.name)] ∧
        decode (encode c) = decode v := by
  refine ⟨decode_encode, fun _ _ => visit_eq, decode_object, ?_, fun _ => decode_array,
    decodePolicy_long, ?_, ?_⟩
  · intro members name value no_capacity no_policy
    refine ⟨decode_congr ?_ ?_, decode_congr ?_ ?_⟩
    · rw [capacityOf, Json.lookup_setMember_of_ne no_capacity, capacityOf]
    · rw [policyOf, Json.lookup_setMember_of_ne no_policy, policyOf]
    · rw [capacityOf, Json.lookup_removeMember_of_ne no_capacity, capacityOf]
    · rw [policyOf, Json.lookup_removeMember_of_ne no_policy, policyOf]
  · intro members name
    simp only [decode, Json.lookup_setMember, Json.lookup_setMember_of_ne
      (by decide : "policy" ≠ "capacity"),
      decodeParts, decodePolicy?, decodePolicy_long]
  · intro v c read
    exact ⟨rfl, (decode_encode c).trans read.symm⟩

/-- Members in another order than that of their names, with one that nobody knows. -/
theorem forms_read_alike_of_three_members :
    let members : List (String × Json) :=
      [("policy", .object [("reject", .null)]), ("level", .float 0.5), ("capacity", .integer 300)]
    let arranged : List (String × Json) :=
      [("capacity", .integer 300), ("level", .float 0.5), ("policy", .object [("reject", .null)])]
    arranged.Perm members ∧ (arranged.Pairwise fun m n => m.1 < n.1) ∧ "level" ≠ "capacity" ∧
      "level" ≠ "policy" ∧
      [Json.integer 300, .object [("reject", .null)]].length ≤ 2 ∧ decode (.object members) =
        .ok ⟨300, .reject⟩ ∧
      visit .nothing arranged = .ok ⟨300, .reject⟩ ∧
      decode (.object (Json.removeMember "level" members)) = .ok ⟨300, .reject⟩ ∧
      decode (.array [.integer 300, .object [("reject", .null)]]) = .ok ⟨300, .reject⟩ ∧
      decode (encode ⟨300, .reject⟩) = .ok ⟨300, .reject⟩ := by
  intro members arranged
  obtain ⟨-, visits, -, others, arrays, -, -, written⟩ := forms_read_alike
  have perm : arranged.Perm members := List.reverse_perm members
  have sorted : arranged.Pairwise fun m n => m.1 < n.1 := by
    simp only [arranged, List.pairwise_cons]
    decide
  have read : decode (.object members) = .ok ⟨300, .reject⟩ := rfl
  refine ⟨perm, sorted, by decide, by decide, by decide, read, (visits _ _ perm sorted).trans read,
    ?_, ?_, ?_⟩
  · exact (others members "level" .null (by decide) (by decide)).2.trans read
  · exact (arrays _ (by decide)).trans read
  · exact (written _ _ read).2.trans read

end Config.Document

end RingQueue
