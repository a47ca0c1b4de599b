import Reconcile.Proofs.Resource.Ancestors
import Reconcile.Proofs.Text.Sorting
import Reconcile.References.Code

/-!
# Collecting references

All code for references is written from the same list: one reference for each field that takes its
value from another resource, in the order of the paths of these fields (`Reference.forall₂_all`).
If it cannot be made, this is due to the first field in this order that has no reference
(`Reference.error?_all`, `Resource.findSome?_referencingFields`).
-/

namespace Reconcile

namespace Resource

variable {definition : ResourceDefinition} {settings : Settings} {normalizer : Normalizer}
  {resource : Resource} {field : Field}

/--
Whether a field comes first, in the order of paths, among the fields with a fault that take their
values from other resources.
-/
structure IsFirst (resource : Resource) (faulty : Field → Prop) (field : Field) : Prop where
  listed : field ∈ resource.specFields.values
  referencing : field.references?.isSome = true
  fails : faulty field
  first : ∀ other ∈ resource.specFields.values, other.references?.isSome = true → faulty other →
    field.path.text ≤ other.path.text

theorem mem_referencingFields : field ∈ resource.referencingFields ↔
    field ∈ resource.specFields.values ∧ field.references?.isSome = true := by
  simp only [referencingFields, List.mem_map, Text.mem_sortedBy, List.mem_filter,
    OrderedMap.values, Entries.values]
  constructor
  · rintro ⟨entry, ⟨listed, referencing⟩, rfl⟩
    exact ⟨⟨entry, listed, rfl⟩, referencing⟩
  · rintro ⟨⟨entry, listed, rfl⟩, referencing⟩
    exact ⟨entry, ⟨listed, referencing⟩, rfl⟩

/-- The texts of the paths ascend, and no two of them are the same. -/
theorem pairwise_lt_referencingFields
    (joined : ofDefinition definition settings normalizer = .ok resource) :
    resource.referencingFields.Pairwise (fun earlier later =>
      earlier.path.text < later.path.text) := by
  have distinct : ((resource.specFields.entries.filter
      (fun entry => entry.2.references?.isSome)).map Prod.fst).Nodup :=
    resource.specFields.nodup_keys.sublist (List.filter_sublist.map Prod.fst)
  rw [referencingFields, List.pairwise_map]
  refine List.Pairwise.imp_of_mem ?_ (Text.pairwise_lt_sortedBy distinct)
  intro left right isLeft isRight less
  rw [Text.mem_sortedBy] at isLeft isRight
  have leftFiled := (filed_specFields joined left (List.mem_filter.mp isLeft).1).1
  have rightFiled := (filed_specFields joined right (List.mem_filter.mp isRight).1).1
  rwa [leftFiled, rightFiled] at less

theorem ascending_referencingFields
    (joined : ofDefinition definition settings normalizer = .ok resource) :
    Text.Ascending (fun field : Field => field.path.text) resource.referencingFields :=
  (pairwise_lt_referencingFields joined).imp (fun less => String.not_lt.mp (String.lt_asymm less))

theorem eq_of_path_text (joined : ofDefinition definition settings normalizer = .ok resource)
    {other : Field} (listed : field ∈ resource.specFields.values)
    (otherListed : other ∈ resource.specFields.values)
    (same : field.path.text = other.path.text) : field = other := by
  have found := field?_path joined listed
  rw [same, field?_path joined otherListed] at found
  exact (Option.some.inj found).symm

theorem IsFirst.unique (joined : ofDefinition definition settings normalizer = .ok resource)
    {faulty : Field → Prop} {other : Field} (isFirst : resource.IsFirst faulty field)
    (otherFirst : resource.IsFirst faulty other) : field = other := by
  apply eq_of_path_text joined isFirst.listed otherFirst.listed
  apply String.le_antisymm
  · exact isFirst.first other otherFirst.listed otherFirst.referencing otherFirst.fails
  · exact otherFirst.first field isFirst.listed isFirst.referencing isFirst.fails

/-- What is found first in the order of paths is what the first field gives. -/
theorem findSome?_referencingFields {ε : Type}
    (joined : ofDefinition definition settings normalizer = .ok resource)
    {fault? : Field → Option ε} {error : ε} :
    resource.referencingFields.findSome? fault? = some error ↔
      ∃ field, resource.IsFirst (fun field => (fault? field).isSome = true) field ∧
        fault? field = some error := by
  have first_of_found : ∀ {error}, resource.referencingFields.findSome? fault? = some error →
      ∃ field, resource.IsFirst (fun field => (fault? field).isSome = true) field ∧
        fault? field = some error := by
    intro error found
    rcases List.findSome?_eq_some_iff.mp found with ⟨front, field, back, split, gives, sound⟩
    have ascending := ascending_referencingFields joined
    have isListed : field ∈ resource.referencingFields := by
      simp [split]
    rcases mem_referencingFields.mp isListed with ⟨listed, referencing⟩
    refine ⟨field, ⟨listed, referencing, by simp [gives], ?_⟩, gives⟩
    intro other otherListed otherReferencing faulty
    have isOther := mem_referencingFields.mpr ⟨otherListed, otherReferencing⟩
    rw [split] at isOther ascending
    rcases List.mem_append.mp isOther with inFront | inBack
    · rw [sound other inFront] at faulty
      exact Bool.noConfusion faulty
    · rcases List.mem_cons.mp inBack with rfl | inRest
      · exact String.le_refl _
      · exact (List.pairwise_cons.mp (List.pairwise_append.mp ascending).2.1).1 other inRest
  constructor
  · exact first_of_found
  · rintro ⟨field, isFirst, gives⟩
    cases found : resource.referencingFields.findSome? fault? with
    | none =>
        have isListed := mem_referencingFields.mpr ⟨isFirst.listed, isFirst.referencing⟩
        have sound := List.findSome?_eq_none_iff.mp found field isListed
        rw [sound] at gives
        cases gives
    | some other =>
        -- Something is found, and only one field comes first.
        rcases first_of_found found with ⟨twin, twinFirst, twinGives⟩
        rw [twinFirst.unique joined isFirst, gives] at twinGives
        exact twinGives.symm

theorem IsFirst.of_iff {faulty wrong : Field → Prop}
    (same : ∀ field ∈ resource.specFields.values, field.references?.isSome = true →
      (faulty field ↔ wrong field))
    (isFirst : resource.IsFirst faulty field) : resource.IsFirst wrong field where
  listed := isFirst.listed
  referencing := isFirst.referencing
  fails := (same field isFirst.listed isFirst.referencing).mp isFirst.fails
  first := by
    intro other listed referencing fails
    exact isFirst.first other listed referencing ((same other listed referencing).mpr fails)

theorem IsFirst.congr {faulty wrong : Field → Prop}
    (same : ∀ field ∈ resource.specFields.values, field.references?.isSome = true →
      (faulty field ↔ wrong field)) :
    resource.IsFirst faulty field ↔ resource.IsFirst wrong field := by
  constructor
  · exact IsFirst.of_iff same
  · apply IsFirst.of_iff
    intro field listed referencing
    exact (same field listed referencing).symm

/-- Among fields with a fault, one comes first. -/
theorem exists_isFirst (joined : ofDefinition definition settings normalizer = .ok resource)
    (faulty : Field → Prop) :
    (∃ field, resource.IsFirst faulty field) ↔
      ∃ field ∈ resource.specFields.values, field.references?.isSome = true ∧ faulty field := by
  classical
  constructor
  · rintro ⟨field, isFirst⟩
    exact ⟨field, isFirst.listed, isFirst.referencing, isFirst.fails⟩
  · rintro ⟨field, listed, referencing, fails⟩
    let fault? : Field → Option Field := fun field => if faulty field then some field else none
    have isSome_fault? : ∀ field, (fault? field).isSome = true ↔ faulty field := by
      intro field
      by_cases isFaulty : faulty field <;> simp [fault?, isFaulty]
    have found : (resource.referencingFields.findSome? fault?).isSome = true := by
      rw [List.findSome?_isSome_iff]
      have isListed := mem_referencingFields.mpr ⟨listed, referencing⟩
      exact ⟨field, isListed, (isSome_fault? field).mpr fails⟩
    rcases Option.isSome_iff_exists.mp found with ⟨result, isResult⟩
    rcases (findSome?_referencingFields joined).mp isResult with ⟨first, isFirst, _⟩
    exact ⟨first, (IsFirst.congr (fun field _ _ => isSome_fault? field)).mp isFirst⟩

/-- The fields that take their values from other resources are those that name a reference field. -/
theorem reference_isSome (joined : ofDefinition definition settings normalizer = .ok resource)
    (listed : field ∈ resource.specFields.values) :
    field.reference.isSome = field.references?.isSome := by
  rcases registered_of_ofDefinition joined with ⟨declared, _, areDeclared, _, specFields, _⟩
  rcases List.mem_map.mp listed with ⟨entry, isEntry, rfl⟩
  rw [specFields] at isEntry
  rcases OrderedMap.mem_of_mem_insertAll isEntry with isRegistered | isReference
  · have isDeclared := mem_of_mem_values_ofList (List.mem_map_of_mem isRegistered)
    rcases Registration.exists_way areDeclared isDeclared with ⟨_, _, _, described⟩
    exact described.reference
  · rcases List.mem_map.mp isReference with ⟨reference, made, rfl⟩
    rcases List.mem_filterMap.mp made with ⟨origin, _, found⟩
    rw [Field.entry, (Field.referenceField?_ok found).2.1,
      (Field.reference_referenceField? found).1]
    rfl

end Resource

namespace Reference

open Outcome

variable {definition : ResourceDefinition} {settings : Settings} {normalizer : Normalizer}
  {resource : Resource} {field : Field} {reference : Reference}

theorem mem_containing {path prefix' : FieldPath} : prefix' ∈ containing path ↔
    ∃ count, 0 < count ∧ count < path.length ∧ prefix' = ⟨path.segments.take count⟩ := by
  simp only [containing, List.mem_map, List.mem_range]
  constructor
  · rintro ⟨depth, inside, rfl⟩
    exact ⟨depth + 1, Nat.succ_pos depth, by omega, rfl⟩
  · rintro ⟨count, positive, short, rfl⟩
    exact ⟨count - 1, by omega, by rw [Nat.sub_add_cancel positive]⟩

/-- Fields next to each other are contained in the same fields. -/
theorem containing_sibling {path : FieldPath} (nonempty : path.segments ≠ []) (name : String) :
    containing (path.parent.child name) = containing path := by
  have length : (path.parent.child name).length = path.length := by
    have positive := List.length_pos_iff.mpr nonempty
    simp only [FieldPath.length, FieldPath.segments_child, FieldPath.parent, List.length_append,
      List.length_dropLast, List.length_singleton]
    omega
  rw [containing, containing, length, List.map_inj_left]
  intro depth inside
  rw [List.mem_range, FieldPath.length] at inside
  simp only [FieldPath.segments_child, FieldPath.parent, FieldPath.mk.injEq]
  rw [List.take_append_of_le_length (by rw [List.length_dropLast]; omega), List.dropLast_eq_take,
    List.take_take, Nat.min_eq_left (by omega)]

/-- What a reference is made of. -/
structure Made (resource : Resource) (field : Field) (reference : Reference) : Prop where
  isSettings : field.references? = some reference.settings
  isPath : field.referencePath? = some reference.path
  isName : field.reference.map Names.exported = some reference.name
  areParents : (containing reference.path).mapM (parent resource field) = .ok reference.parents
  isField : reference.field = field

theorem made_of_ofField (made : ofField resource field = .ok (some reference)) :
    Made resource field reference := by
  unfold ofField at made
  split at made
  · rename_i found named isPath
    rcases of_bind_eq_ok made with ⟨parents, areParents, given⟩
    cases given
    exact ⟨found, isPath, by rw [named, Option.map_some], areParents, rfl⟩
  · cases made

/-- A field that names a reference field has a reference, unless it cannot be made. -/
theorem exists_reference (names : field.reference.isSome = true)
    (referencing : field.references?.isSome = true) {result : Option Reference}
    (made : ofField resource field = .ok result) : ∃ reference, result = some reference := by
  rcases Option.isSome_iff_exists.mp names with ⟨referenceNames, named⟩
  rcases Option.isSome_iff_exists.mp referencing with ⟨settings, found⟩
  have isPath : field.referencePath? =
      some (field.path.parent.child referenceNames.exported) := by
    rw [Field.referencePath?, named, Option.map_some]
  rw [ofField, found, named, isPath] at made
  rcases of_bind_eq_ok made with ⟨parents, _, given⟩
  cases given
  exact ⟨_, rfl⟩

theorem error?_all (resource : Resource) :
    error? (all resource) =
      resource.referencingFields.findSome? (fun field => error? (ofField resource field)) := by
  rw [all, error?_bind_pure, error?_mapM]

/-- There is one reference for each field that takes its value from another resource. -/
theorem forall₂_all (joined : Resource.ofDefinition definition settings normalizer = .ok resource)
    {references : List Reference} (done : all resource = .ok references) :
    List.Forall₂ (Made resource) resource.referencingFields references := by
  rcases of_bind_eq_ok done with ⟨results, collected, kept⟩
  cases kept
  have each := forall₂_of_mapM_eq_ok collected
  have present : ∀ field ∈ resource.referencingFields, field.reference.isSome = true ∧
      field.references?.isSome = true := by
    intro field listed
    rcases Resource.mem_referencingFields.mp listed with ⟨isValue, referencing⟩
    rw [Resource.reference_isSome joined isValue]
    exact ⟨referencing, referencing⟩
  clear collected done
  generalize resource.referencingFields = fields at each present
  induction each with
  | nil => exact .nil
  | cons made _ ih =>
      rcases present _ List.mem_cons_self with ⟨names, referencing⟩
      rcases exists_reference names referencing made with ⟨reference, rfl⟩
      exact .cons (made_of_ofField made) (ih (fun field inRest =>
        present field (List.mem_cons_of_mem _ inRest)))

/-- A parent is what a look-up finds, and it has members or elements. -/
theorem of_parent_eq_ok {path : FieldPath} {outer : Field}
    (found : parent resource field path = .ok outer) :
    resource.field? .spec path.text = some outer ∧
      ((∃ name members, outer.shape = .struct name members) ∨ outer.shape.isSequence = true) := by
  unfold parent at found
  split at found
  · cases found
  · rename_i other isOther
    split at found
    · rename_i name members isShape
      cases found
      exact ⟨isOther, Or.inl ⟨name, members, isShape⟩⟩
    · rename_i name element isShape
      cases found
      exact ⟨isOther, Or.inr (by rw [isShape]; rfl)⟩
    · cases found
    · cases found

/--
Whether the parents of a reference are the fields that contain its field: one under each proper
leading part of the path of the field, the shortest first, all of them structures or sequences.
-/
structure IsContained (resource : Resource) (reference : Reference) : Prop where
  listed : reference.field ∈ resource.specFields.values
  count : reference.parents.length + 1 = reference.field.path.length
  parent : ∀ depth outer, reference.parents[depth]? = some outer →
    outer ∈ resource.specFields.values ∧
      outer.path.text = FieldPath.text ⟨reference.field.path.segments.take (depth + 1)⟩ ∧
        ((∃ name members, outer.shape = .struct name members) ∨ outer.shape.isSequence = true)

theorem Made.isContained
    (joined : Resource.ofDefinition definition settings normalizer = .ok resource)
    (listed : field ∈ resource.specFields.values) (referencing : field.references?.isSome = true)
    (made : Made resource field reference) : reference.IsContained resource := by
  have nonempty : field.path.segments ≠ [] := Resource.segments_ne_nil joined .spec listed
  have positive := List.length_pos_iff.mpr nonempty
  rcases Option.map_eq_some_iff.mp made.isPath with ⟨names, _, isPath⟩
  have areParents := made.areParents
  rw [← isPath, containing_sibling nonempty] at areParents
  have each := forall₂_of_mapM_eq_ok areParents
  have isField := made.isField
  subst isField
  refine ⟨listed, ?_, ?_⟩
  · have count := each.length_eq
    simp only [containing, List.length_map, List.length_range, FieldPath.length] at count ⊢
    omega
  · intro depth outer isParent
    rcases List.getElem?_eq_some_iff.mp isParent with ⟨short, isOuter⟩
    have inPath : depth < (containing reference.field.path).length := each.length_eq ▸ short
    have made := (List.forall₂_iff_get.mp each).2 depth inPath short
    simp only [List.get_eq_getElem, isOuter, containing, List.getElem_map,
      List.getElem_range] at made
    rcases of_parent_eq_ok made with ⟨found, hasMembers⟩
    -- A field is kept under the path itself, so that the look-up does not end at a similar one.
    have inSpec : reference.field ∈ (resource.fields .spec).values := listed
    rcases Resource.exists_containing joined inSpec (Or.inl referencing) (Nat.succ_pos depth) with
      ⟨kept, isKept, keptText⟩
    rw [← keptText, Resource.field?_path joined isKept] at found
    cases found
    exact ⟨isKept, keptText, hasMembers⟩

theorem map_field_of_made {fields : List Field} {references : List Reference}
    (made : List.Forall₂ (Made resource) fields references) :
    references.map Reference.field = fields := by
  induction made with
  | nil => rfl
  | cons first _ ih => rw [List.map_cons, ih, first.isField]

end Reference

end Reconcile
