import Reconcile.Proofs.Resource.Registry

/-!
# Reference fields

The name of a reference field is derived from that of the field that it stands in for, and a field
takes the place of one that is filed under the same path. So reference fields, and the fields
next to them, are all kept exactly if no two of their paths have the same text
(`Resource.keepsAll_iff`).
-/

namespace Reconcile

namespace Resource

open Shape

/-- Whether the reference field of a field is filed under its path. -/
def FilesReferenceOf (resource : Resource) (field : Field) : Prop :=
  ∃ path reference, field.referencePath? = some path ∧
    resource.specFields.get? path.text = some reference ∧
      reference.resolves = some field.path ∧
        reference.shape.isSequence = field.shape.isSequence

/--
Whether a resource keeps all its fields: each field that takes its value from another resource
has a reference field of its own, and each reached member has its field.
-/
structure KeepsAll (resource : Resource) (registration : Registration)
    (members : List (String × Shape)) : Prop where
  own : ∀ field ∈ resource.specFields.values, field.references?.isSome = true →
    resource.FilesReferenceOf field
  apart : ∀ left ∈ resource.specFields.values, ∀ right ∈ resource.specFields.values,
    left.references?.isSome = true → right.references?.isSome = true →
      left.referencePath? = right.referencePath? → left = right
  kept : ∀ place way, IsReached members place way →
    ∃ field, resource.specFields.get? (registration.pathAlong way).text = some field ∧
      registration.Describes way field

section

variable {definition : ResourceDefinition} {settings : Settings} {normalizer : Normalizer}
  {resource : Resource} {registration : Registration} {members : List (String × Shape)}

/-- Fields with distinct paths are all kept. -/
theorem keepsAll_of_nodup (joined : ofDefinition definition settings normalizer = .ok resource)
    (distinct : ((registrationOf definition settings normalizer).memberTexts
        definition.spec.membersBelow ++
      (registrationOf definition settings normalizer).referenceTexts
        definition.spec.membersBelow).Nodup) :
    resource.KeepsAll (registrationOf definition settings normalizer)
      definition.spec.membersBelow := by
  rcases registered_of_ofDefinition joined with ⟨declared, _, areDeclared, _, specFields, _⟩
  rw [Registration.memberTexts_eq areDeclared, Registration.referenceTexts_eq areDeclared,
    ← List.map_append] at distinct
  have entries : resource.specFields.entries =
      (declared ++ declared.filterMap Field.referenceField?).map Field.entry := by
    rw [specFields, entries_withReferenceFields distinct]
  have found : ∀ field ∈ declared ++ declared.filterMap Field.referenceField?,
      resource.specFields.get? field.path.text = some field := by
    intro field listed
    apply OrderedMap.get?_of_mem
    rw [entries]
    exact List.mem_map_of_mem listed
  have own : ∀ field ∈ resource.specFields.values, field.references?.isSome = true →
      resource.FilesReferenceOf field := by
    intro field isValue isReferencing
    have isDeclared : field ∈ declared := by
      rw [OrderedMap.values, Entries.values, entries, List.map_map] at isValue
      rcases List.mem_map.mp isValue with ⟨same, listed, rfl⟩
      rcases List.mem_append.mp listed with isDeclared | isReference
      · exact isDeclared
      · rcases List.mem_filterMap.mp isReference with ⟨origin, _, made⟩
        have none := (Field.referenceField?_ok made).2.1
        simp [Field.entry, none] at isReferencing
    rw [Registration.isSome_referenceField? areDeclared isDeclared] at isReferencing
    rcases Option.isSome_iff_exists.mp isReferencing with ⟨reference, made⟩
    rcases Field.referenceField?_ok made with ⟨resolves, _, isList⟩
    refine ⟨reference.path, reference, ?_, ?_, resolves, isList⟩
    · rw [← Field.path_referenceField?, made, Option.map_some]
    · apply found reference
      exact List.mem_append_right _ (List.mem_filterMap.mpr ⟨field, isDeclared, made⟩)
  refine ⟨own, ?_, ?_⟩
  · intro left isLeft right isRight leftReferences rightReferences same
    rcases own left isLeft leftReferences with ⟨path, reference, leftPath, leftFound, ofLeft, _⟩
    rcases own right isRight rightReferences with
      ⟨other, otherReference, rightPath, rightFound, ofRight, _⟩
    rw [leftPath, rightPath, Option.some.injEq] at same
    subst same
    cases leftFound.symm.trans rightFound
    exact eq_of_path (filed_specFields joined) isLeft isRight
      (Option.some.inj (ofLeft.symm.trans ofRight))
  · intro place way reaches
    rcases Registration.exists_field areDeclared reaches with ⟨field, isDeclared, described⟩
    refine ⟨field, ?_, described⟩
    rw [← described.path]
    exact found field (List.mem_append_left _ isDeclared)

/-- The reference field that is asked for along a way is a field of its own. -/
theorem KeepsAll.exists_reference (keeps : resource.KeepsAll registration members)
    {place : List Nat} {way : Way} (reaches : IsReached members place way) {path : FieldPath}
    (asked : registration.referenceAlong? way = some path) :
    ∃ reference, resource.specFields.get? path.text = some reference ∧
      reference.resolves = some (registration.pathAlong way) := by
  rcases keeps.kept place way reaches with ⟨field, found, described⟩
  have isValue : field ∈ resource.specFields.values :=
    List.mem_map_of_mem (OrderedMap.mem_of_get? found)
  have isReferencing : field.references?.isSome = true := by
    rw [← described.reference, ← Option.isSome_map (f := fun names : Names =>
      field.path.parent.child names.exported)]
    have same := described.referencePath
    rw [asked, Field.referencePath?] at same
    rw [same, Option.isSome_some]
  rcases keeps.own field isValue isReferencing with ⟨other, reference, isPath, isFound, resolves, _⟩
  rw [described.referencePath, asked, Option.some.injEq] at isPath
  subst isPath
  exact ⟨reference, isFound, by rw [resolves, described.path]⟩

/-- Only fields with distinct paths are all kept. -/
theorem KeepsAll.nodup (keeps : resource.KeepsAll registration members)
    (distinct : (registration.memberTexts members).Nodup) :
    (registration.memberTexts members ++ registration.referenceTexts members).Nodup := by
  rw [List.nodup_append]
  refine ⟨distinct, ?_, ?_⟩
  · rw [Registration.referenceTexts, List.Nodup, List.pairwise_map, List.pairwise_filterMap]
    rw [Registration.memberTexts, List.Nodup, List.pairwise_map] at distinct
    apply distinct.imp_of_mem
    rintro ⟨place, way⟩ ⟨otherPlace, otherWay⟩ isReached otherReached apart path asked otherPath
      otherAsked same
    rcases keeps.exists_reference (mem_reached.mp isReached) asked with
      ⟨reference, found, resolves⟩
    rcases keeps.exists_reference (mem_reached.mp otherReached) otherAsked with
      ⟨otherReference, otherFound, otherResolves⟩
    rw [same] at found
    cases found.symm.trans otherFound
    rw [Option.some.inj (resolves.symm.trans otherResolves)] at apart
    exact apart rfl
  · intro text isMember other isReference same
    rw [Registration.memberTexts, List.mem_map] at isMember
    rw [Registration.referenceTexts, List.mem_map] at isReference
    rcases isMember with ⟨⟨place, way⟩, isReached, rfl⟩
    rcases isReference with ⟨path, listed, rfl⟩
    rcases List.mem_filterMap.mp listed with ⟨⟨otherPlace, otherWay⟩, otherReached, asked⟩
    rcases keeps.kept place way (mem_reached.mp isReached) with ⟨field, found, described⟩
    rcases keeps.exists_reference (mem_reached.mp otherReached) asked with
      ⟨reference, otherFound, resolves⟩
    rw [same] at found
    cases found.symm.trans otherFound
    rw [described.resolves] at resolves
    cases resolves

end

/--
If no two reached members of desired state have the same path, a resource keeps all its fields
exactly if no reference field has the path of another field.
-/
theorem keepsAll_iff (definition : ResourceDefinition) (settings : Settings)
    (normalizer : Normalizer) (resource : Resource)
    (joined : ofDefinition definition settings normalizer = .ok resource)
    (distinct : ((registrationOf definition settings normalizer).memberTexts
      definition.spec.membersBelow).Nodup) :
    let registration := registrationOf definition settings normalizer
    resource.KeepsAll registration definition.spec.membersBelow ↔
      (registration.memberTexts definition.spec.membersBelow ++
        registration.referenceTexts definition.spec.membersBelow).Nodup :=
  ⟨fun keeps => keeps.nodup distinct, keepsAll_of_nodup joined⟩

/-- Desired state with two members whose names differ in the ending only. -/
def functionDefinition : ResourceDefinition where
  name := "Function"
  spec := .struct "FunctionSpec" [
    ("RoleName", Shape.scalarOf .string), ("RoleARN", Shape.scalarOf .string)]
  status := none
  operations := ∅

/-- Settings that take both members from other resources. -/
def rolesFromIam : Settings where
  resources := .ofList [("Function", {
    fields := .ofList [
      ("RoleName", { references := some {
        resource := "Role", service := some "iam", path := "Spec.Name",
        skipStateCheck := false } }),
      ("RoleARN", { references := some {
        resource := "Role", service := some "iam", path := "Status.ARN",
        skipStateCheck := false } })] })]

/-- Both reference fields are named `RoleRef`, so that the second takes the place of the first. -/
theorem keepsAll_iff_roles :
    ((registrationOf functionDefinition rolesFromIam .default).memberTexts
        functionDefinition.spec.membersBelow).Nodup ∧
      ∃ resource, ofDefinition functionDefinition rolesFromIam .default = .ok resource ∧
        resource.specFields.keys = ["RoleName", "RoleARN", "RoleRef"] ∧
          ¬resource.KeepsAll (registrationOf functionDefinition rolesFromIam .default)
            functionDefinition.spec.membersBelow := by
  have distinct : ((registrationOf functionDefinition rolesFromIam .default).memberTexts
      functionDefinition.spec.membersBelow).Nodup := by
    decide +kernel
  have facts : ∃ resource ∈ (ofDefinition functionDefinition rolesFromIam .default).toOption,
      resource.specFields.keys = ["RoleName", "RoleARN", "RoleRef"] := by
    decide +kernel
  rcases facts with ⟨resource, made, keys⟩
  have joined := Outcome.of_mem_toOption made
  refine ⟨distinct, resource, joined, keys, ?_⟩
  intro keeps
  have allDistinct := (keepsAll_iff functionDefinition rolesFromIam .default resource joined
    distinct).mp keeps
  exact absurd allDistinct (by decide +kernel)

end Resource

end Reconcile
