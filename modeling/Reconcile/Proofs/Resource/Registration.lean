import Mathlib.Data.List.Nodup
import Reconcile.Proofs.OrderedMap
import Reconcile.Proofs.Outcomes
import Reconcile.Resource.Registration

/-!
# Registered fields

The fields of a resource that was joined from a definition and settings are filed under the
texts of their own paths, and each path ends with the exported name of its field. So a path
belongs to one field at most (`Resource.eq_of_path`). Every registered field comes from one
member of a shape, which lies as deep as its path is long (`Registration.Origin`).
-/

namespace Reconcile

/-- Whether the path of a field ends with its exported name. -/
def Field.IsFiled (field : Field) : Prop :=
  ∃ parent : FieldPath, field.path = parent.child field.names.exported

theorem Field.IsFiled.segments {field : Field} (filed : field.IsFiled)
    (outermost : field.path.length = 1) : field.path.segments = [field.names.exported] := by
  rcases filed with ⟨parent, path⟩
  rw [path, FieldPath.length, FieldPath.segments_child, List.length_append] at outermost
  have noParent : parent.segments = [] := by simpa using outermost
  simp [path, noParent]

theorem Field.IsFiled.text {field : Field} (filed : field.IsFiled)
    (outermost : field.path.length = 1) : field.path.text = field.names.exported := by
  simp [FieldPath.text, filed.segments outermost]

/-- The members that are registered below a value: its own or those of what it holds. -/
def Shape.membersBelow : Shape → List (String × Shape)
  | .struct _ members => members
  | .sequence _ (.struct _ members) => members
  | .mapping _ _ (.struct _ members) => members
  | _ => []

namespace Registration

variable {registration : Registration}

/-- Whether a field comes from members under a path or from members below them. -/
inductive Origin (registration : Registration) :
    FieldPath → List (String × Shape) → Field → Prop
  | member {parent : FieldPath} {members : List (String × Shape)} {member : String × Shape}
      {field : Field} (listed : member ∈ members)
      (registered : registration.field parent member.1 member.2 = .ok field) :
      Origin registration parent members field
  | nested {parent : FieldPath} {members : List (String × Shape)} {member : String × Shape}
      {outer field : Field} (listed : member ∈ members)
      (registered : registration.field parent member.1 member.2 = .ok outer)
      (inner : Origin registration outer.path member.2.membersBelow field) :
      Origin registration parent members field

theorem Origin.mono {parent : FieldPath} {few many : List (String × Shape)} {field : Field}
    (origin : Origin registration parent few field) (subset : few ⊆ many) :
    Origin registration parent many field := by
  cases origin with
  | member listed registered => exact .member (subset listed) registered
  | nested listed registered inner => exact .nested (subset listed) registered inner

theorem origin_of_fieldsOf (parent : FieldPath) (members : List (String × Shape)) :
    ∀ fields, fieldsOf registration parent members = .ok fields →
      ∀ field ∈ fields, Origin registration parent members field := by
  -- Together with what is below a value, along the recursion over shapes.
  refine fieldsOf.induct
    (fun path shape => ∀ fields, fieldsBelow registration path shape = .ok fields →
      ∀ field ∈ fields, Origin registration path shape.membersBelow field)
    (fun parent members => ∀ fields, fieldsOf registration parent members = .ok fields →
      ∀ field ∈ fields, Origin registration parent members field)
    ?struct ?sequence ?mapping ?other ?nil ?cons parent members
  case struct =>
    intro path name members ih fields registered
    rw [fieldsBelow] at registered
    exact ih fields registered
  case sequence =>
    intro path name inner members ih fields registered
    rw [fieldsBelow] at registered
    exact ih fields registered
  case mapping =>
    intro path name key inner members ih fields registered
    rw [fieldsBelow] at registered
    exact ih fields registered
  case other =>
    intro shape path noStruct noSequence noMapping fields registered
    rw [fieldsBelow] at registered
    · cases registered
      simp
    · exact noStruct
    · exact noSequence
    · exact noMapping
  case nil =>
    intro parent fields registered
    rw [fieldsOf] at registered
    cases registered
    simp
  case cons =>
    intro parent member shape rest ofShape ofRest fields registered
    rw [fieldsOf] at registered
    rcases Outcome.of_bind_eq_ok registered with ⟨first, isField, registered⟩
    rcases Outcome.of_bind_eq_ok registered with ⟨below, areBelow, registered⟩
    rcases Outcome.of_bind_eq_ok registered with ⟨others, areOthers, made⟩
    cases made
    intro field membership
    rcases List.mem_append.mp membership with inBelow | inOthers
    · exact .nested List.mem_cons_self isField (ofShape first below areBelow field inBelow)
    · rcases List.mem_cons.mp inOthers with rfl | inRest
      · exact .member List.mem_cons_self isField
      · exact (ofRest others areOthers field inRest).mono (List.subset_cons_self _ _)

/-- What the field of a member is made of. -/
theorem field_ok {parent : FieldPath} {member : String} {shape : Shape} {field : Field}
    (registered : registration.field parent member shape = .ok field) :
    field.path = parent.child field.names.exported ∧ field.shape = shape ∧
      field.names = registration.normalizer (registration.renamed parent member) := by
  unfold Registration.field at registered
  dsimp only at registered
  split at registered
  · rcases Outcome.of_bind_eq_ok registered with ⟨reference, _, made⟩
    cases made
    exact ⟨rfl, rfl, rfl⟩
  · cases registered
    exact ⟨rfl, rfl, rfl⟩

theorem Origin.isFiled {parent : FieldPath} {members : List (String × Shape)} {field : Field}
    (origin : Origin registration parent members field) : field.IsFiled := by
  induction origin with
  | member listed registered => exact ⟨_, (field_ok registered).1⟩
  | nested listed registered inner ih => exact ih

theorem Origin.length_lt {parent : FieldPath} {members : List (String × Shape)} {field : Field}
    (origin : Origin registration parent members field) : parent.length < field.path.length := by
  induction origin with
  | member listed registered =>
      rw [(field_ok registered).1]
      simp [FieldPath.length]
  | nested listed registered inner ih =>
      rw [(field_ok registered).1] at ih
      simp only [FieldPath.length, FieldPath.segments_child, List.length_append] at ih ⊢
      omega

/-- A field that is as short as the fields of members is one of them. -/
theorem Origin.exists_member {parent : FieldPath} {members : List (String × Shape)} {field : Field}
    (origin : Origin registration parent members field)
    (short : field.path.length = parent.length + 1) :
    ∃ member ∈ members, field.shape = member.2 := by
  cases origin with
  | member listed registered => exact ⟨_, listed, (field_ok registered).2.1⟩
  | nested listed registered inner =>
      have longer := inner.length_lt
      rw [(field_ok registered).1] at longer
      simp only [FieldPath.length, FieldPath.segments_child, List.length_append,
        List.length_singleton] at longer short
      omega

/-- The fields below a root come from the members of its shape. -/
theorem origin_of_fieldsOfRoot {resource : String} {root : FieldRoot} {shape : Shape}
    {fields : OrderedMap Field}
    (registered : registration.fieldsOfRoot resource root shape = .ok fields) :
    ∃ name members, shape = .struct name members ∧ ∀ entry ∈ fields.entries,
      entry.1 = entry.2.path.text ∧ Origin registration .empty members entry.2 := by
  cases shape with
  | struct name members =>
      rcases Outcome.of_bind_eq_ok registered with ⟨listed, areFields, made⟩
      cases made
      refine ⟨name, members, rfl, ?_⟩
      intro entry membership
      rcases OrderedMap.mem_of_mem_insertAll membership with inEmpty | isListed
      · exact absurd inEmpty List.not_mem_nil
      · rcases List.mem_map.mp isListed with ⟨field, isField, rfl⟩
        exact ⟨rfl, origin_of_fieldsOf .empty members listed areFields field isField⟩
  | scalar name kind => cases registered
  | sequence name element => cases registered
  | mapping name key value => cases registered

end Registration

namespace Resource

variable {definition : ResourceDefinition} {settings : Settings} {normalizer : Normalizer}
  {resource : Resource}

/-- What the reference field of a field is made of. -/
theorem referenceField?_eq_some {field reference : Field}
    (found : field.referenceField? = some reference) :
    reference.path = field.path.parent.child reference.names.exported ∧
      reference.isReference = true := by
  unfold Field.referenceField? Field.referencePath? at found
  cases names : field.reference with
  | none => simp [names] at found
  | some referenceNames =>
      simp only [names, Option.map_some, bind, Option.bind_some, pure, Option.some.injEq] at found
      rw [← found]
      exact ⟨rfl, rfl⟩

/-- The fields of desired state come from its members or are reference fields of those that do. -/
theorem origin_of_specFields (joined : ofDefinition definition settings normalizer = .ok resource) :
    ∃ registration name members, definition.spec = .struct name members ∧
      ∀ entry ∈ resource.specFields.entries, entry.1 = entry.2.path.text ∧
        (Registration.Origin registration .empty members entry.2 ∨
          ∃ field : Field, field.referenceField? = some entry.2) := by
  unfold ofDefinition at joined
  dsimp only at joined
  rcases Outcome.of_bind_eq_ok joined with ⟨registered, areRegistered, joined⟩
  have same : resource.specFields = withReferenceFields registered := by
    split at joined
    · rcases Outcome.of_bind_eq_ok joined with ⟨statusFields, _, made⟩
      cases made
      rfl
    · cases joined
      rfl
  generalize Registration.mk _ _ _ = registration at areRegistered
  rcases Registration.origin_of_fieldsOfRoot areRegistered with ⟨name, members, shape, origins⟩
  refine ⟨registration, name, members, shape, ?_⟩
  intro entry membership
  rw [same] at membership
  rcases OrderedMap.mem_of_mem_insertAll membership with isRegistered | isReference
  · rcases origins entry isRegistered with ⟨filed, origin⟩
    exact ⟨filed, Or.inl origin⟩
  · rcases List.mem_map.mp isReference with ⟨reference, found, rfl⟩
    rcases List.mem_filterMap.mp found with ⟨field, _, made⟩
    exact ⟨rfl, Or.inr ⟨field, made⟩⟩

/-- The fields of desired state are filed under their paths. -/
theorem filed_specFields (joined : ofDefinition definition settings normalizer = .ok resource) :
    ∀ entry ∈ resource.specFields.entries, entry.1 = entry.2.path.text ∧ entry.2.IsFiled := by
  rcases origin_of_specFields joined with ⟨registration, name, members, _, origins⟩
  intro entry membership
  rcases origins entry membership with ⟨filed, origin | ⟨field, isReference⟩⟩
  · exact ⟨filed, origin.isFiled⟩
  · exact ⟨filed, field.path.parent, (referenceField?_eq_some isReference).1⟩

theorem mem_topLevelFields {field : Field} :
    field ∈ resource.topLevelFields ↔
      field ∈ resource.specFields.values ∧ field.path.length = 1 := by
  rw [topLevelFields, Text.mem_sortedBy, List.mem_filter, beq_iff_eq]

/-- The path of an outermost field is its exported name. -/
theorem path_topLevelFields
    (filed : ∀ entry ∈ resource.specFields.entries, entry.1 = entry.2.path.text ∧ entry.2.IsFiled)
    {field : Field} (isTop : field ∈ resource.topLevelFields) :
    field.path = ⟨[field.names.exported]⟩ := by
  rcases mem_topLevelFields.mp isTop with ⟨isValue, outermost⟩
  rcases List.mem_map.mp isValue with ⟨entry, isEntry, rfl⟩
  exact congrArg FieldPath.mk ((filed entry isEntry).2.segments outermost)

/-- The outermost fields have distinct paths. -/
theorem nodup_topLevelFields
    (filed : ∀ entry ∈ resource.specFields.entries,
      entry.1 = entry.2.path.text ∧ entry.2.IsFiled) :
    (resource.topLevelFields.map Field.path).Nodup := by
  have texts : (resource.specFields.values.map Field.path).map FieldPath.text =
      resource.specFields.entries.map Prod.fst := by
    rw [OrderedMap.values, Entries.values, List.map_map, List.map_map]
    apply List.map_congr_left
    intro entry isEntry
    exact (filed entry isEntry).1.symm
  have distinct : (resource.specFields.values.map Field.path).Nodup := by
    apply List.Nodup.of_map FieldPath.text
    rw [texts]
    exact resource.specFields.nodup_keys
  have outermost : ((resource.specFields.values.filter
      (fun field => field.path.length == 1)).map Field.path).Nodup :=
    distinct.sublist ((List.filter_sublist).map Field.path)
  exact ((Text.sortedBy_perm _).map Field.path).nodup_iff.mpr outermost

/-- The outermost fields that are no reference fields have the shapes of the definition. -/
theorem exists_member_of_outermost
    (joined : ofDefinition definition settings normalizer = .ok resource) {field : Field}
    (isTop : field ∈ resource.topLevelFields) (noReference : field.isReference = false) :
    ∃ name members, definition.spec = .struct name members ∧
      ∃ member ∈ members, field.shape = member.2 := by
  rcases mem_topLevelFields.mp isTop with ⟨isValue, outermost⟩
  rcases List.mem_map.mp isValue with ⟨entry, isEntry, rfl⟩
  rcases origin_of_specFields joined with ⟨registration, name, members, shape, origins⟩
  rcases (origins entry isEntry).2 with origin | ⟨field, isReference⟩
  · exact ⟨name, members, shape, origin.exists_member outermost⟩
  · rw [(referenceField?_eq_some isReference).2] at noReference
    exact Bool.noConfusion noReference

/-- A path belongs to one field at most. -/
theorem eq_of_path {fields : OrderedMap Field} {left right : Field}
    (filed : ∀ entry ∈ fields.entries, entry.1 = entry.2.path.text ∧ entry.2.IsFiled)
    (leftMem : left ∈ fields.values) (rightMem : right ∈ fields.values)
    (same : left.path = right.path) : left = right := by
  rcases List.mem_map.mp leftMem with ⟨⟨leftKey, _⟩, leftEntry, rfl⟩
  rcases List.mem_map.mp rightMem with ⟨⟨rightKey, _⟩, rightEntry, rfl⟩
  have leftFiled := (filed _ leftEntry).1
  have rightFiled := (filed _ rightEntry).1
  dsimp only at leftFiled rightFiled same
  rw [leftFiled, same] at leftEntry
  rw [rightFiled] at rightEntry
  exact OrderedMap.eq_of_mem leftEntry rightEntry

end Resource

end Reconcile
