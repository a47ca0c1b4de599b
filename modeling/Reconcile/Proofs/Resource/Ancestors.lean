import Reconcile.Proofs.Resource.ReferenceFields

/-!
# Ancestors of fields

The ancestors of a member are the members on the way to it, and all of them are reached too
(`Shape.IsReached.take`). So whatever contains a registered field is registered itself, and it has
members: it is no scalar (`Resource.exists_ancestor`). A look-up of its path finds it
(`Resource.field?_path`).
-/

namespace Reconcile

namespace Shape

variable {members : List (String × Shape)} {place : List Nat} {way : Way} {count : Nat}

/-- What is on the way to a member is reached too. -/
theorem IsReached.take (reaches : IsReached members place way) (positive : 0 < count) :
    IsReached members (place.take count) (way.take count) := by
  induction reaches generalizing count with
  | member found =>
      rcases count with _ | count
      · exact absurd positive (Nat.lt_irrefl 0)
      · simpa using IsReached.member found
  | nested found inner ih =>
      rcases count with _ | count
      · exact absurd positive (Nat.lt_irrefl 0)
      · rcases Nat.eq_zero_or_pos count with rfl | deeper
        · simpa using IsReached.member found
        · rw [List.take_succ_cons, List.take_succ_cons]
          exact .nested found (ih deeper)

theorem IsReached.members_ne_nil (reaches : IsReached members place way) : members ≠ [] := by
  rintro rfl
  cases reaches with
  | member found => simp at found
  | nested found inner => simp at found

/-- What is on the way to a member before its end has members. -/
theorem IsReached.membersBelow_ne_nil (reaches : IsReached members place way)
    (positive : 0 < count) (short : count < way.length) {member : String × Shape}
    (last : (way.take count).getLast? = some member) : member.2.membersBelow ≠ [] := by
  induction reaches generalizing count with
  | member found =>
      rw [List.length_singleton] at short
      omega
  | @nested _ _ _ _ inwards found inner ih =>
      rcases count with _ | count
      · exact absurd positive (Nat.lt_irrefl 0)
      · rcases Nat.eq_zero_or_pos count with rfl | deeper
        · rw [List.take_succ_cons, List.take_zero, List.getLast?_singleton,
            Option.some.injEq] at last
          rw [← last]
          exact inner.members_ne_nil
        · rw [List.length_cons, Nat.add_lt_add_iff_right] at short
          have nonempty : inwards.take count ≠ [] := by
            rw [← List.length_pos_iff, List.length_take]
            omega
          rw [List.take_succ_cons, List.getLast?_cons_of_ne_nil nonempty] at last
          exact ih deeper short last

end Shape

namespace Registration

variable {registration : Registration} {way : Shape.Way} {field : Field}

/-- The path of what is on the way to a member leads that of the member. -/
theorem pathAlong_take (registration : Registration) (way : Shape.Way) (count : Nat) :
    registration.pathAlong (way.take count) =
      ⟨(registration.pathAlong way).segments.take count⟩ := by
  cases way with
  | nil => simp [pathAlong, namesAlong]
  | cons first rest => cases count <;> simp [pathAlong, namesAlong, List.map_take]

end Registration

/-- A reference field is no scalar and has no reference field itself. -/
theorem Field.reference_referenceField? {field reference : Field}
    (found : field.referenceField? = some reference) :
    reference.reference = none ∧ ∀ name kind, reference.shape ≠ .scalar name kind := by
  unfold referenceField? at found
  rcases Option.bind_eq_some_iff.mp found with ⟨names, _, found⟩
  rcases Option.bind_eq_some_iff.mp found with ⟨path, _, found⟩
  cases found
  refine ⟨rfl, ?_⟩
  intro name kind
  dsimp only
  split
  · exact Shape.noConfusion
  · exact Shape.noConfusion

namespace Resource

open Shape

variable {definition : ResourceDefinition} {settings : Settings} {normalizer : Normalizer}
  {resource : Resource} {field : Field}

/-- Whether no two fields of desired state, reference fields included, have the same path. -/
def PathsDiffer (definition : ResourceDefinition) (settings : Settings)
    (normalizer : Normalizer) : Prop :=
  ((registrationOf definition settings normalizer).memberTexts definition.spec.membersBelow ++
    (registrationOf definition settings normalizer).referenceTexts
      definition.spec.membersBelow).Nodup

instance (definition : ResourceDefinition) (settings : Settings) (normalizer : Normalizer) :
    Decidable (PathsDiffer definition settings normalizer) :=
  inferInstanceAs (Decidable (List.Nodup _))

/-- Where paths differ, desired state has the registered fields and their reference fields. -/
theorem exists_declared (joined : ofDefinition definition settings normalizer = .ok resource)
    (differ : PathsDiffer definition settings normalizer) :
    ∃ declared, (registrationOf definition settings normalizer).fieldsOf .empty
        definition.spec.membersBelow = .ok declared ∧
      resource.specFields.values = declared ++ declared.filterMap Field.referenceField? := by
  rcases registered_of_ofDefinition joined with ⟨declared, _, areDeclared, _, specFields, _⟩
  rw [PathsDiffer, Registration.memberTexts_eq areDeclared,
    Registration.referenceTexts_eq areDeclared, ← List.map_append] at differ
  refine ⟨declared, areDeclared, ?_⟩
  rw [OrderedMap.values, specFields, entries_withReferenceFields differ]
  simp [Entries.values, Field.entry, Function.comp_def]

/-- A field is what a look-up of its path finds. -/
theorem field?_path (joined : ofDefinition definition settings normalizer = .ok resource)
    (listed : field ∈ resource.specFields.values) :
    resource.field? .spec field.path.text = some field := by
  rcases List.mem_map.mp listed with ⟨⟨key, _⟩, isEntry, rfl⟩
  have filed : key = _ := (filed_specFields joined _ isEntry).1
  rw [filed] at isEntry
  have found := OrderedMap.get?_of_mem isEntry
  rw [field?, fields, OrderedMap.closest?, Entries.closest?, Option.map_or]
  rw [OrderedMap.get?] at found
  rw [found, Option.some_or]

/-- What contains a field that takes its value from another resource is a field with members. -/
theorem exists_ancestor (joined : ofDefinition definition settings normalizer = .ok resource)
    (differ : PathsDiffer definition settings normalizer)
    (listed : field ∈ resource.specFields.values) (referencing : field.references?.isSome = true)
    {count : Nat} (positive : 0 < count) (short : count < field.path.length) :
    ∃ outer ∈ resource.specFields.values,
      outer.path = ⟨field.path.segments.take count⟩ ∧ outer.shape.membersBelow ≠ [] := by
  rcases exists_declared joined differ with ⟨declared, areDeclared, values⟩
  rw [values] at listed ⊢
  rcases List.mem_append.mp listed with isDeclared | isReference
  · rcases Registration.exists_way areDeclared isDeclared with ⟨place, way, reaches, described⟩
    rw [described.path, Registration.length_pathAlong] at short
    rcases Registration.exists_field areDeclared (reaches.take positive) with
      ⟨outer, outerDeclared, ofOuter⟩
    refine ⟨outer, List.mem_append_left _ outerDeclared, ?_, ?_⟩
    · rw [ofOuter.path, described.path, Registration.pathAlong_take]
    · rcases Option.map_eq_some_iff.mp ofOuter.shape with ⟨member, last, shape⟩
      rw [← shape]
      exact reaches.membersBelow_ne_nil positive short last
  · rcases List.mem_filterMap.mp isReference with ⟨origin, _, made⟩
    rw [(Field.referenceField?_ok made).2.1] at referencing
    exact Bool.noConfusion referencing

/-! ### Look-ups in both parts -/

theorem filed_fields (joined : ofDefinition definition settings normalizer = .ok resource)
    (root : FieldRoot) : ∀ entry ∈ (resource.fields root).entries,
      entry.1 = entry.2.path.text ∧ entry.2.path.segments ≠ [] := by
  intro entry isEntry
  cases root with
  | spec =>
      rcases filed_specFields joined entry isEntry with ⟨filed, outer, path⟩
      exact ⟨filed, by simp [path]⟩
  | status =>
      rcases registered_of_ofDefinition joined with
        ⟨_, observed, _, areObserved, _, statusFields⟩
      rw [fields, statusFields] at isEntry
      rcases OrderedMap.mem_of_mem_insertAll isEntry with inEmpty | isObserved
      · exact absurd inEmpty List.not_mem_nil
      · rcases List.mem_map.mp isObserved with ⟨field, listed, rfl⟩
        rcases Registration.exists_way areObserved listed with ⟨place, way, reaches, described⟩
        refine ⟨rfl, ?_⟩
        rw [Field.entry, ← List.length_pos_iff, ← FieldPath.length, described.path,
          Registration.length_pathAlong]
        cases reaches <;> simp

theorem segments_ne_nil (joined : ofDefinition definition settings normalizer = .ok resource)
    (root : FieldRoot) (listed : field ∈ (resource.fields root).values) :
    field.path.segments ≠ [] := by
  rcases List.mem_map.mp listed with ⟨entry, isEntry, rfl⟩
  exact (filed_fields joined root entry isEntry).2

theorem mem_of_field? {root : FieldRoot} {text : String}
    (found : resource.field? root text = some field) : field ∈ (resource.fields root).values := by
  rcases Option.map_eq_some_iff.mp found with ⟨entry, isClosest, rfl⟩
  rcases Option.or_eq_some_iff.mp isClosest with same | ⟨_, similar⟩
  · exact List.mem_map_of_mem (List.mem_of_find?_eq_some same)
  · exact List.mem_map_of_mem (List.mem_of_find?_eq_some similar)

/-- What a look-up finds is a field whose path differs in letter case at most. -/
theorem similar_of_field? (joined : ofDefinition definition settings normalizer = .ok resource)
    {root : FieldRoot} {text : String} (found : resource.field? root text = some field) :
    field ∈ (resource.fields root).values ∧
      Text.equalIgnoringCase field.path.text text = true := by
  refine ⟨mem_of_field? found, ?_⟩
  rcases Option.map_eq_some_iff.mp found with ⟨entry, isClosest, rfl⟩
  have filed := fun isEntry => (filed_fields joined root entry isEntry).1
  rcases Option.or_eq_some_iff.mp isClosest with same | ⟨_, similar⟩
  · have named : entry.1 = text := by simpa using List.find?_some same
    rw [filed (List.mem_of_find?_eq_some same)] at named
    rw [named]
    exact Text.equalIgnoringCase_refl text
  · have differs := List.find?_some similar
    rwa [filed (List.mem_of_find?_eq_some similar)] at differs

theorem mem_of_mem_values_ofList {declared : List Field}
    (isValue : field ∈ (OrderedMap.ofList (declared.map Field.entry)).values) :
    field ∈ declared := by
  rcases List.mem_map.mp isValue with ⟨entry, isEntry, rfl⟩
  rcases OrderedMap.mem_of_mem_insertAll isEntry with inEmpty | isDeclared
  · exact absurd inEmpty List.not_mem_nil
  · rcases List.mem_map.mp isDeclared with ⟨field, inDeclared, rfl⟩
    exact inDeclared

theorem mem_keys_ofList {declared : List Field} (listed : field ∈ declared) :
    field.path.text ∈ (OrderedMap.ofList (declared.map Field.entry)).keys := by
  rw [OrderedMap.ofList, OrderedMap.mem_keys_insertAll, keys_entry]
  exact Or.inr (List.mem_map_of_mem listed)

/--
The scalars of a part and the fields that take their values from other resources are registered
fields, and the paths of registered fields are kept.
-/
theorem exists_registered (joined : ofDefinition definition settings normalizer = .ok resource)
    (root : FieldRoot) :
    ∃ members declared,
      (registrationOf definition settings normalizer).fieldsOf .empty members = .ok declared ∧
      (∀ field ∈ (resource.fields root).values,
        field.references?.isSome = true ∨ (∃ name kind, field.shape = .scalar name kind) →
          field ∈ declared) ∧
      ∀ field ∈ declared, field.path.text ∈ (resource.fields root).keys := by
  rcases registered_of_ofDefinition joined with
    ⟨declared, observed, areDeclared, areObserved, specFields, statusFields⟩
  cases root with
  | spec =>
      refine ⟨_, declared, areDeclared, ?_, ?_⟩
      · intro field isValue isOwn
        rw [fields, specFields] at isValue
        rcases List.mem_map.mp isValue with ⟨entry, isEntry, rfl⟩
        rcases OrderedMap.mem_of_mem_insertAll isEntry with isRegistered | isReference
        · exact mem_of_mem_values_ofList (List.mem_map_of_mem isRegistered)
        · -- A reference field takes its value from nowhere, and it is no scalar.
          rcases List.mem_map.mp isReference with ⟨reference, made, rfl⟩
          rcases List.mem_filterMap.mp made with ⟨origin, _, found⟩
          rcases isOwn with referencing | ⟨name, kind, isScalar⟩
          · rw [Field.entry, (Field.referenceField?_ok found).2.1] at referencing
            exact Bool.noConfusion referencing
          · exact absurd isScalar ((Field.reference_referenceField? found).2 name kind)
      · intro field listed
        rw [fields, specFields, withReferenceFields, OrderedMap.mem_keys_insertAll]
        exact Or.inl (mem_keys_ofList listed)
  | status =>
      refine ⟨_, observed, areObserved, ?_, ?_⟩
      · intro field isValue _
        rw [fields, statusFields] at isValue
        exact mem_of_mem_values_ofList isValue
      · intro field listed
        rw [fields, statusFields]
        exact mem_keys_ofList listed

/-- What contains a scalar or a referencing field has a field under its path. -/
theorem exists_containing (joined : ofDefinition definition settings normalizer = .ok resource)
    {root : FieldRoot} (listed : field ∈ (resource.fields root).values)
    (isOwn : field.references?.isSome = true ∨ ∃ name kind, field.shape = .scalar name kind)
    {count : Nat} (positive : 0 < count) : ∃ outer ∈ (resource.fields root).values,
      outer.path.text = FieldPath.text ⟨field.path.segments.take count⟩ := by
  rcases exists_registered joined root with ⟨members, declared, areDeclared, registered, kept⟩
  have isDeclared := registered field listed isOwn
  rcases Registration.exists_way areDeclared isDeclared with ⟨place, way, reaches, described⟩
  rcases Registration.exists_field areDeclared (reaches.take positive) with
    ⟨outer, outerDeclared, ofOuter⟩
  rcases List.mem_map.mp (kept outer outerDeclared) with ⟨entry, isEntry, isKey⟩
  refine ⟨entry.2, List.mem_map_of_mem isEntry, ?_⟩
  rw [← (filed_fields joined root entry isEntry).1, isKey, ofOuter.path, described.path,
    Registration.pathAlong_take]

end Resource

end Reconcile
