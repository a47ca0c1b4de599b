import Reconcile.Proofs.References.Collecting

/-!
# When there is no code for references

What contains a referencing field is found under the leading segments of the path of the field, and
it has members. So it is never missing and never a scalar, and only a mapping refuses the field
(`Reference.error?_ofField`). Code for references fails with the first refused field in the order of
paths, and beyond this only resolution fails, with the first value that it cannot locate
(`References.fails_iff`).
-/

namespace Reconcile

open Outcome

/-- Whether there is an error in the location of a value in another resource. -/
inductive ReferenceSettings.Misplaces (settings : ReferenceSettings) : ReferenceError → Prop
  | unreadable {error : FieldPath.ParseError}
      (fails : FieldPath.parse settings.path = .error error) :
      Misplaces settings (.unreadablePath settings.path error)
  | short {path : FieldPath} (parsed : FieldPath.parse settings.path = .ok path)
      (below : path.length < 2) : Misplaces settings (.shortPath settings.path)

theorem ReferenceSettings.absenceCheck_eq_error {settings : ReferenceSettings} {object : String}
    {error : ReferenceError} :
    settings.absenceCheck object = .error error ↔ settings.Misplaces error := by
  unfold absenceCheck
  constructor
  · intro fails
    cases parsed : FieldPath.parse settings.path with
    | error cause =>
        rw [parsed] at fails
        cases fails
        exact .unreadable parsed
    | ok path =>
        rw [parsed] at fails
        rcases path with ⟨_ | ⟨root, _ | ⟨first, rest⟩⟩⟩
        · cases fails
          exact .short parsed (by simp [FieldPath.length])
        · cases fails
          exact .short parsed (by simp [FieldPath.length])
        · cases fails
  · intro misplaces
    cases misplaces with
    | unreadable fails =>
        rw [fails]
        rfl
    | @short path parsed below =>
        rw [parsed]
        rcases path with ⟨_ | ⟨root, _ | ⟨first, rest⟩⟩⟩
        · rfl
        · rfl
        · rw [FieldPath.length, List.length_cons, List.length_cons] at below
          omega

namespace Resource

variable {definition : ResourceDefinition} {settings : Settings} {normalizer : Normalizer}
  {resource : Resource} {field : Field} {error : ReferenceError}

/-- Whether a field of desired state is inside a mapping. -/
def IsWithinMapping (resource : Resource) (field : Field) : Prop :=
  ∃ outer ∈ resource.specFields.values,
    (∃ name key value, outer.shape = .mapping name key value) ∧
      outer.path.segments <+: field.path.segments ∧ outer.path.length < field.path.length

/-- Whether an error names the first field with a reference that is inside a mapping. -/
def Refuses (resource : Resource) (error : ReferenceError) : Prop :=
  ∃ field, resource.IsFirst resource.IsWithinMapping field ∧ error = .withinMapping field.path

/-- Whether a field is taken from a value without a location. -/
def IsMisplaced (field : Field) : Prop :=
  ∃ settings error, field.references? = some settings ∧ settings.Misplaces error

/-- Whether an error is that of the first field that is taken from a value without a location. -/
def Misplaces (resource : Resource) (error : ReferenceError) : Prop :=
  ∃ field settings, resource.IsFirst IsMisplaced field ∧ field.references? = some settings ∧
    settings.Misplaces error

theorem exists_refuses (joined : ofDefinition definition settings normalizer = .ok resource) :
    (∃ error, resource.Refuses error) ↔ ∃ field ∈ resource.specFields.values,
      field.references?.isSome = true ∧ resource.IsWithinMapping field := by
  rw [← exists_isFirst joined]
  constructor
  · rintro ⟨_, field, isFirst, _⟩
    exact ⟨field, isFirst⟩
  · rintro ⟨field, isFirst⟩
    exact ⟨_, field, isFirst, rfl⟩

theorem exists_misplaces (joined : ofDefinition definition settings normalizer = .ok resource) :
    (∃ error, resource.Misplaces error) ↔ ∃ field ∈ resource.specFields.values,
      field.references?.isSome = true ∧ IsMisplaced field := by
  rw [← exists_isFirst joined]
  constructor
  · rintro ⟨_, field, _, isFirst, _⟩
    exact ⟨field, isFirst⟩
  · rintro ⟨field, isFirst⟩
    rcases isFirst.fails with ⟨taken, error, found, misplaces⟩
    exact ⟨error, field, taken, isFirst, found, misplaces⟩

/-- No containing field is missing and none is a scalar. -/
theorem not_missing_of_fails (fails : resource.Refuses error ∨ resource.Misplaces error) :
    (∀ path name, error ≠ .unknownField path name) ∧ ∀ path, error ≠ .withinScalar path := by
  rcases fails with ⟨_, _, rfl⟩ | ⟨_, _, _, _, misplaces⟩
  · simp
  · cases misplaces <;> simp

end Resource

namespace Reference

variable {definition : ResourceDefinition} {settings : Settings} {normalizer : Normalizer}
  {resource : Resource} {field : Field} {error : ReferenceError}

theorem error?_ofField_eq
    (joined : Resource.ofDefinition definition settings normalizer = .ok resource)
    (listed : field ∈ resource.specFields.values) (referencing : field.references?.isSome = true) :
    error? (ofField resource field) =
      (containing field.path).findSome? (fun path => error? (parent resource field path)) := by
  have names := Resource.reference_isSome joined listed
  rw [referencing] at names
  rcases Option.isSome_iff_exists.mp names with ⟨referenceNames, named⟩
  rcases Option.isSome_iff_exists.mp referencing with ⟨taken, found⟩
  have isPath : field.referencePath? =
      some (field.path.parent.child referenceNames.exported) := by
    rw [Field.referencePath?, named, Option.map_some]
  have nonempty : field.path.segments ≠ [] := Resource.segments_ne_nil joined .spec listed
  rw [ofField, found, named, isPath]
  dsimp only
  rw [error?_bind_pure, error?_mapM, containing_sibling nonempty]

/-- Whatever contains a field is found, and only a mapping refuses the field. -/
theorem exists_parent (joined : Resource.ofDefinition definition settings normalizer = .ok resource)
    (differ : Resource.PathsDiffer definition settings normalizer)
    (listed : field ∈ resource.specFields.values) (referencing : field.references?.isSome = true)
    {path : FieldPath} (contains : path ∈ containing field.path) :
    ∃ outer ∈ resource.specFields.values, outer.path = path ∧
      error? (parent resource field path) = match outer.shape with
        | .mapping .. => some (.withinMapping field.path)
        | _ => none := by
  rcases mem_containing.mp contains with ⟨count, positive, short, rfl⟩
  rcases Resource.exists_ancestor joined differ listed referencing positive short with
    ⟨outer, isListed, isPath, hasMembers⟩
  refine ⟨outer, isListed, isPath, ?_⟩
  rw [parent, ← isPath, Resource.field?_path joined isListed]
  cases shape : outer.shape with
  | scalar name kind =>
      rw [shape] at hasMembers
      exact absurd rfl hasMembers
  | struct name members => simp only [shape, error?]
  | sequence name element => simp only [shape, error?]
  | mapping name key value => simp only [shape, error?]

/-- A field is refused exactly if it is inside a mapping. -/
theorem error?_ofField
    (joined : Resource.ofDefinition definition settings normalizer = .ok resource)
    (differ : Resource.PathsDiffer definition settings normalizer)
    (listed : field ∈ resource.specFields.values) (referencing : field.references?.isSome = true) :
    error? (ofField resource field) = some error ↔
      resource.IsWithinMapping field ∧ error = .withinMapping field.path := by
  have refused_of_found : ∀ {error}, (containing field.path).findSome?
        (fun path => error? (parent resource field path)) = some error →
      resource.IsWithinMapping field ∧ error = .withinMapping field.path := by
    intro error found
    rcases List.exists_of_findSome?_eq_some found with ⟨path, contains, fails⟩
    rcases exists_parent joined differ listed referencing contains with
      ⟨outer, isListed, isPath, outcome⟩
    rcases mem_containing.mp contains with ⟨count, _, short, isPrefix⟩
    rw [outcome] at fails
    split at fails
    · rename_i name key value isMapping
      refine ⟨⟨outer, isListed, ⟨name, key, value, isMapping⟩, ?_, ?_⟩,
        (Option.some.inj fails).symm⟩
      · rw [isPath, isPrefix]
        exact List.take_prefix count _
      · rw [isPath, isPrefix, FieldPath.length, List.length_take]
        omega
    · cases fails
  rw [error?_ofField_eq joined listed referencing]
  constructor
  · exact refused_of_found
  · rintro ⟨⟨mapping, isListed, ⟨name, key, value, isMapping⟩, isPrefix, short⟩, rfl⟩
    have positive : 0 < mapping.path.length :=
      List.length_pos_iff.mpr (Resource.segments_ne_nil joined .spec isListed)
    have contains : mapping.path ∈ containing field.path := by
      rw [mem_containing]
      refine ⟨mapping.path.length, positive, short, ?_⟩
      rw [FieldPath.length, ← List.prefix_iff_eq_take.mp isPrefix]
    rcases exists_parent joined differ listed referencing contains with
      ⟨outer, outerListed, isPath, outcome⟩
    -- The mapping itself is found under its path.
    have same := Resource.eq_of_path_text joined outerListed isListed
      (congrArg FieldPath.text isPath)
    subst same
    have found : ((containing field.path).findSome?
        (fun path => error? (parent resource field path))).isSome = true := by
      rw [List.findSome?_isSome_iff]
      exact ⟨outer.path, contains, by simp [outcome, isMapping]⟩
    rcases Option.isSome_iff_exists.mp found with ⟨error, isError⟩
    rw [isError, (refused_of_found isError).2]

theorem error?_all_eq_some
    (joined : Resource.ofDefinition definition settings normalizer = .ok resource)
    (differ : Resource.PathsDiffer definition settings normalizer) :
    error? (all resource) = some error ↔ resource.Refuses error := by
  rw [error?_all, Resource.findSome?_referencingFields joined, Resource.Refuses]
  apply exists_congr
  intro field
  have same : ∀ field ∈ resource.specFields.values, field.references?.isSome = true →
      ((error? (ofField resource field)).isSome = true ↔ resource.IsWithinMapping field) := by
    intro field listed referencing
    rw [Option.isSome_iff_exists]
    simp only [error?_ofField joined differ listed referencing, exists_and_left, exists_eq,
      and_true]
  rw [Resource.IsFirst.congr same]
  apply and_congr_right
  intro isFirst
  rw [error?_ofField joined differ isFirst.listed isFirst.referencing]
  exact and_iff_right isFirst.fails

end Reference

namespace References

variable {definition : ResourceDefinition} {settings : Settings} {normalizer : Normalizer}
  {resource : Resource} {object : String} {level : Nat} {error : ReferenceError}

theorem error?_resolutionCode {reference : Reference} :
    error? (resolutionCode object reference) =
      error? (reference.settings.absenceCheck "obj") := by
  rw [resolutionCode, error?_bind_pure]

/-- Where no field is refused, resolution stops at the first value without a location. -/
theorem error?_resolve_of_all
    (joined : Resource.ofDefinition definition settings normalizer = .ok resource)
    {references : List Reference} (done : Reference.all resource = .ok references) :
    error? (resolve resource object level) = some error ↔ resource.Misplaces error := by
  have located : references.findSome? (fun reference => error? (resolutionCode object reference)) =
      resource.referencingFields.findSome? (fun field =>
        field.references?.bind (fun taken => error? (taken.absenceCheck "obj"))) := by
    have each := Reference.forall₂_all joined done
    clear done
    generalize resource.referencingFields = fields at each
    induction each with
    | nil => rfl
    | cons made _ ih =>
        rw [List.findSome?_cons, List.findSome?_cons, ih, error?_resolutionCode, made.isSettings,
          Option.bind_some]
  have isSome_iff : ∀ field : Field,
      (field.references?.bind (fun taken => error? (taken.absenceCheck "obj"))).isSome = true ↔
        Resource.IsMisplaced field := by
    intro field
    rw [Option.isSome_iff_exists, Resource.IsMisplaced]
    simp only [Option.bind_eq_some_iff, error?_eq_some,
      ReferenceSettings.absenceCheck_eq_error]
    rw [exists_comm]
  rw [resolve, done]
  dsimp only [bind, Except.bind]
  change error? (references.mapM (resolutionCode object) >>= fun codes =>
    pure (Code.render codes.flatten level)) = some error ↔ _
  rw [error?_bind_pure, error?_mapM, located, Resource.findSome?_referencingFields joined,
    Resource.Misplaces]
  apply exists_congr
  intro field
  rw [Resource.IsFirst.congr (fun field _ _ => isSome_iff field), Option.bind_eq_some_iff]
  simp only [error?_eq_some, ReferenceSettings.absenceCheck_eq_error, exists_and_left]

theorem error?_resolve
    (joined : Resource.ofDefinition definition settings normalizer = .ok resource)
    (differ : Resource.PathsDiffer definition settings normalizer) :
    error? (resolve resource object level) = some error ↔ resource.Refuses error ∨
      (¬∃ refusal, resource.Refuses refusal) ∧ resource.Misplaces error := by
  cases collected : Reference.all resource with
  | error refusal =>
      have refused : resource.Refuses refusal := by
        rw [← Reference.error?_all_eq_some joined differ, collected, error?]
      have same : error? (resolve resource object level) = error? (Reference.all resource) := by
        rw [resolve, collected]
        rfl
      rw [same, Reference.error?_all_eq_some joined differ]
      exact (or_iff_left (fun other => other.1 ⟨refusal, refused⟩)).symm
  | ok references =>
      have none : ∀ refusal, ¬resource.Refuses refusal := by
        intro refusal refused
        rw [← Reference.error?_all_eq_some joined differ, collected] at refused
        cases refused
      rw [error?_resolve_of_all joined collected]
      simp [none]

/--
There is no code for references exactly if a field with a reference is inside a mapping, and the
error names the first such field. For resolution the values must have locations besides. No
containing field is ever missing or a scalar.
-/
theorem fails_iff (joined : Resource.ofDefinition definition settings normalizer = .ok resource)
    (differ : Resource.PathsDiffer definition settings normalizer) (object : String) (level : Nat) :
    ((∃ error, resource.Refuses error) ↔ ∃ field ∈ resource.specFields.values,
      field.references?.isSome = true ∧ resource.IsWithinMapping field) ∧
    ((∃ error, resource.Misplaces error) ↔ ∃ field ∈ resource.specFields.values,
      field.references?.isSome = true ∧ Resource.IsMisplaced field) ∧
    ∀ error,
      (validate resource object level = .error error ↔ resource.Refuses error) ∧
      (present resource object level = .error error ↔ resource.Refuses error) ∧
      (clear resource object level = .error error ↔ resource.Refuses error) ∧
      (resolve resource object level = .error error ↔ resource.Refuses error ∨
        (¬∃ refusal, resource.Refuses refusal) ∧ resource.Misplaces error) ∧
      (validate resource object level = .error error ∨
          present resource object level = .error error ∨
          clear resource object level = .error error ∨
          resolve resource object level = .error error →
        (∀ path name, error ≠ .unknownField path name) ∧ ∀ path, error ≠ .withinScalar path) := by
  refine ⟨Resource.exists_refuses joined, Resource.exists_misplaces joined, ?_⟩
  intro error
  have validated : validate resource object level = .error error ↔ resource.Refuses error := by
    rw [← Reference.error?_all_eq_some joined differ, ← error?_eq_some, validate, error?_bind_pure]
  have asked : present resource object level = .error error ↔ resource.Refuses error := by
    rw [← Reference.error?_all_eq_some joined differ, ← error?_eq_some, present, error?_bind_pure]
  have cleared : clear resource object level = .error error ↔ resource.Refuses error := by
    rw [← Reference.error?_all_eq_some joined differ, ← error?_eq_some, clear, error?_bind_pure]
  have resolved : resolve resource object level = .error error ↔ resource.Refuses error ∨
      (¬∃ refusal, resource.Refuses refusal) ∧ resource.Misplaces error := by
    rw [← error?_eq_some]
    exact error?_resolve joined differ
  refine ⟨validated, asked, cleared, resolved, ?_⟩
  rw [validated, asked, cleared, resolved]
  intro fails
  apply Resource.not_missing_of_fails
  tauto

/-- Desired state with a subnet inside a mapping and an account behind it. -/
def clusterDefinition : ResourceDefinition where
  name := "Cluster"
  spec := .struct "ClusterSpec" [
    ("NodeGroups", Shape.mappingOf .string (.struct "NodeGroup" [
      ("SubnetID", Shape.scalarOf .string)])),
    ("AccountID", Shape.scalarOf .string)]
  status := none
  operations := ∅

/-- Settings that take the subnet and the account from other resources, the account from nowhere. -/
def clusterReferences : Settings where
  resources := .ofList [("Cluster", {
    fields := .ofList [
      ("NodeGroups.SubnetID", { references := some {
        resource := "Subnet", service := some "ec2", path := "Status.SubnetID",
        skipStateCheck := false } }),
      ("AccountID", { references := some {
        resource := "Account", service := none, path := "Status", skipStateCheck := false } })] })]

/-- The subnet is refused before the missing location of the account is noticed. -/
theorem fails_iff_cluster :
    Resource.PathsDiffer clusterDefinition clusterReferences .default ∧
      ∃ resource,
        Resource.ofDefinition clusterDefinition clusterReferences .default = .ok resource ∧
        resource.Refuses (.withinMapping ⟨["NodeGroups", "SubnetID"]⟩) ∧
        resolve resource "ko" 1 = .error (.withinMapping ⟨["NodeGroups", "SubnetID"]⟩) := by
  have differ : Resource.PathsDiffer clusterDefinition clusterReferences .default := by
    decide +kernel
  have facts : ∃ resource ∈
        (Resource.ofDefinition clusterDefinition clusterReferences .default).toOption,
      validate resource "ko" 1 = .error (.withinMapping ⟨["NodeGroups", "SubnetID"]⟩) := by
    decide +kernel
  rcases facts with ⟨resource, made, refused⟩
  have joined := Outcome.of_mem_toOption made
  have outcome := (fails_iff joined differ "ko" 1).2.2 (.withinMapping ⟨["NodeGroups", "SubnetID"]⟩)
  have refuses := outcome.1.mp refused
  exact ⟨differ, resource, joined, refuses, outcome.2.2.2.1.mpr (.inl refuses)⟩

end References

end Reconcile
