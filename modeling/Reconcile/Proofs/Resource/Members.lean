import Reconcile.Proofs.Resource.Ancestors

/-!
# Fields and members

A field of desired state that is no reference field comes from a member that is reached
(`Resource.exists_reached`), and the path of each reached member is that of a field
(`Resource.mem_keys_of_reached`). So there are fields for all the members below a field, under the
exported names of these (`Resource.child_mem_keys`), and the fields whose paths have no dot are
those of outermost members (`Resource.mem_keys_iff_of_dotless`).
-/

namespace Reconcile

/-- A path whose text has no dot is one name. -/
theorem FieldPath.length_eq_one_of_dotless {path : FieldPath} (nonempty : path.segments ≠ [])
    (dotless : '.' ∉ path.text.toList) : path.length = 1 := by
  rcases path with ⟨segments⟩
  match segments with
  | [] => exact absurd rfl nonempty
  | [_] => rfl
  | first :: second :: rest =>
      rw [text, String.intercalate_cons_cons] at dotless
      simp at dotless

/-- A member that is registered below a reached one is reached. -/
theorem Shape.IsReached.concat {members : List (String × Shape)} {place : List Nat}
    {way : Shape.Way} (reaches : IsReached members place way) {last member : String × Shape}
    {index : Nat} (isLast : way.getLast? = some last)
    (found : last.2.membersBelow[index]? = some member) :
    IsReached members (place ++ [index]) (way ++ [member]) := by
  induction reaches with
  | member outerFound =>
      rw [List.getLast?_singleton, Option.some.injEq] at isLast
      subst isLast
      exact .nested outerFound (.member found)
  | nested outerFound inner ih =>
      refine .nested outerFound (ih ?_)
      cases inner <;> simpa using isLast

namespace Resource

variable {definition : ResourceDefinition} {settings : Settings} {normalizer : Normalizer}
  {resource : Resource} {field : Field}

/-- The fields of desired state that are no reference fields come from members. -/
theorem exists_reached (joined : ofDefinition definition settings normalizer = .ok resource)
    (listed : field ∈ resource.specFields.values) (noReference : field.isReference = false) :
    ∃ place way, Shape.IsReached definition.spec.membersBelow place way ∧
      (registrationOf definition settings normalizer).Describes way field := by
  rcases registered_of_ofDefinition joined with ⟨declared, _, areDeclared, _, specFields, _⟩
  rw [specFields] at listed
  rcases List.mem_map.mp listed with ⟨entry, isEntry, rfl⟩
  rcases OrderedMap.mem_of_mem_insertAll isEntry with isRegistered | isReference
  · exact Registration.exists_way areDeclared
      (mem_of_mem_values_ofList (List.mem_map_of_mem isRegistered))
  · rcases List.mem_map.mp isReference with ⟨reference, made, rfl⟩
    rcases List.mem_filterMap.mp made with ⟨origin, _, found⟩
    rw [Field.entry, (referenceField?_eq_some found).2] at noReference
    exact Bool.noConfusion noReference

/-- The path of each reached member is that of a field. -/
theorem mem_keys_of_reached (joined : ofDefinition definition settings normalizer = .ok resource)
    {place : List Nat} {way : Shape.Way}
    (reaches : Shape.IsReached definition.spec.membersBelow place way) :
    ((registrationOf definition settings normalizer).pathAlong way).text ∈
      resource.specFields.keys := by
  rcases registered_of_ofDefinition joined with ⟨declared, _, areDeclared, _, specFields, _⟩
  rcases Registration.exists_field areDeclared reaches with ⟨inner, isDeclared, described⟩
  rw [specFields, withReferenceFields, OrderedMap.mem_keys_insertAll, ← described.path]
  exact Or.inl (mem_keys_ofList isDeclared)

/-- Members below a field are registered under their exported names. -/
theorem child_mem_keys (joined : ofDefinition definition settings normalizer = .ok resource)
    (listed : field ∈ resource.specFields.values) (noReference : field.isReference = false)
    {member : String × Shape} (inner : member ∈ field.shape.membersBelow) :
    (field.path.child (normalizer member.1).exported).text ∈ resource.specFields.keys := by
  rcases exists_reached joined listed noReference with ⟨place, way, reaches, described⟩
  rcases Option.map_eq_some_iff.mp described.shape with ⟨last, isLast, shape⟩
  rw [← shape] at inner
  rcases List.mem_iff_getElem?.mp inner with ⟨index, found⟩
  have registered := mem_keys_of_reached joined (reaches.concat isLast found)
  have nonempty : way ≠ [] := by
    rintro rfl
    cases reaches
  have notOutermost : (registrationOf definition settings normalizer).renamed
      ((registrationOf definition settings normalizer).pathAlong way) member.1 = member.1 := by
    rw [Registration.renamed, if_neg]
    rw [FieldPath.isEmpty, List.isEmpty_iff, ← List.length_eq_zero_iff, ← FieldPath.length,
      Registration.length_pathAlong, List.length_eq_zero_iff]
    exact nonempty
  rw [Registration.pathAlong_concat, notOutermost, ← described.path] at registered
  exact registered

/-- The fields whose paths have no dot are those of outermost members. -/
theorem mem_keys_iff_of_dotless
    (joined : ofDefinition definition settings normalizer = .ok resource)
    (noReferences : ∀ field ∈ resource.specFields.values, field.isReference = false)
    {name : String} (dotless : '.' ∉ name.toList) :
    name ∈ resource.specFields.keys ↔ ∃ member ∈ definition.spec.membersBelow,
      (normalizer ((registrationOf definition settings normalizer).renamed .empty
        member.1)).exported = name := by
  constructor
  · intro isKey
    rcases List.mem_map.mp isKey with ⟨entry, isEntry, rfl⟩
    rcases filed_fields joined .spec entry isEntry with ⟨filed, nonempty⟩
    have listed : entry.2 ∈ resource.specFields.values := List.mem_map_of_mem isEntry
    rcases exists_reached joined listed (noReferences _ listed) with
      ⟨place, way, reaches, described⟩
    rw [filed] at dotless
    have short := FieldPath.length_eq_one_of_dotless nonempty dotless
    rw [described.path, Registration.length_pathAlong] at short
    cases reaches with
    | member found =>
        refine ⟨_, List.mem_of_getElem? found, ?_⟩
        rw [filed, described.path]
        rfl
    | nested found inner =>
        cases inner <;> simp at short
  · rintro ⟨member, listed, rfl⟩
    rcases List.mem_iff_getElem?.mp listed with ⟨index, found⟩
    exact mem_keys_of_reached joined (.member found)

end Resource

end Reconcile
