import Reconcile.Proofs.Resource.Reaching

/-!
# The registry of fields

A resource registers one field for each member that is reached from its definition, in the order
in which members are reached, and behind them one reference field for each field that takes its
value from another resource. If no two of them have the same dotted path, they are all there
(`Resource.registries_mirror`).
-/

namespace Reconcile

theorem Field.path_referenceField? (field : Field) :
    field.referenceField?.map Field.path = field.referencePath? := by
  unfold referenceField? referencePath?
  cases field.reference <;> rfl

section

variable {α β : Type} {related : α → β → Prop} {lefts : List α} {rights : List β}

theorem exists_left_of_mem (all : List.Forall₂ related lefts rights) {right : β}
    (listed : right ∈ rights) : ∃ left ∈ lefts, related left right := by
  induction all with
  | nil => exact absurd listed List.not_mem_nil
  | cons first _ ih =>
      rcases List.mem_cons.mp listed with rfl | inRest
      · exact ⟨_, List.mem_cons_self, first⟩
      · rcases ih inRest with ⟨left, isLeft, holds⟩
        exact ⟨left, List.mem_cons_of_mem _ isLeft, holds⟩

theorem forall₂_filterMap {item? : α → Option β} {listed : α → Bool} {items : List α}
    (agree : ∀ item ∈ items, listed item = (item? item).isSome) :
    List.Forall₂ (fun item image => item? item = some image) (items.filter listed)
      (items.filterMap item?) := by
  induction items with
  | nil => exact .nil
  | cons first rest ih =>
      have others := ih (fun item inRest => agree item (List.mem_cons_of_mem _ inRest))
      have here := agree first List.mem_cons_self
      cases image : item? first with
      | none => simpa [here, image] using others
      | some value => simpa [here, image] using others

theorem exists_right_of_mem (all : List.Forall₂ related lefts rights) {left : α}
    (listed : left ∈ lefts) : ∃ right ∈ rights, related left right :=
  exists_left_of_mem all.flip listed

end

/-- What a reference field has in common with the field that it stands in for. -/
theorem Field.referenceField?_ok {field reference : Field}
    (found : field.referenceField? = some reference) :
    reference.resolves = some field.path ∧ reference.references? = none ∧
      reference.shape.isSequence = field.shape.isSequence := by
  unfold referenceField? referencePath? at found
  cases names : field.reference with
  | none => simp [names] at found
  | some referenceNames =>
      simp only [names, Option.map_some, bind, Option.bind_some, pure, Option.some.injEq] at found
      subst found
      refine ⟨rfl, rfl, ?_⟩
      cases isList : field.shape.isSequence <;> simp [Shape.sequenceOf, referenceShape,
        Shape.isSequence]

namespace Registration

open Shape

variable {registration : Registration} {way outer : Way} {member : String × Shape} {field : Field}

/-! ### Paths along ways -/

/-- The names of the members along a way. New names are given to the outermost one only. -/
def namesAlong (registration : Registration) : Way → List Names
  | [] => []
  | member :: rest =>
      registration.normalizer ((registration.renames.get? member.1).getD member.1) ::
        rest.map (fun inner => registration.normalizer inner.1)

/-- The path of the member that a way leads to. -/
def pathAlong (registration : Registration) (way : Way) : FieldPath :=
  ⟨(registration.namesAlong way).map Names.exported⟩

theorem namesAlong_concat (outer : Way) (member : String × Shape) :
    registration.namesAlong (outer ++ [member]) = registration.namesAlong outer ++
      [registration.normalizer (registration.renamed (registration.pathAlong outer) member.1)] := by
  cases outer with
  | nil => rfl
  | cons first rest => simp [namesAlong, renamed, pathAlong, FieldPath.isEmpty]

theorem pathAlong_concat (outer : Way) (member : String × Shape) :
    registration.pathAlong (outer ++ [member]) = (registration.pathAlong outer).child
      (registration.normalizer
        (registration.renamed (registration.pathAlong outer) member.1)).exported := by
  simp [pathAlong, namesAlong_concat, FieldPath.child]

theorem length_pathAlong (way : Way) : (registration.pathAlong way).length = way.length := by
  cases way <;> simp [pathAlong, namesAlong, FieldPath.length]

theorem parent_pathAlong (way : Way) :
    (registration.pathAlong way).parent = registration.pathAlong way.dropLast := by
  rcases List.eq_nil_or_concat way with rfl | ⟨outer, member, rfl⟩
  · rfl
  · rw [List.concat_eq_append, pathAlong_concat, FieldPath.parent_child, List.dropLast_concat]

/-- The path of the reference field of the member that a way leads to, if settings ask for one. -/
def referenceAlong? (registration : Registration) (way : Way) : Option FieldPath := do
  let member ← way.getLast?
  let names ← (registration.namesAlong way).getLast?
  let path := registration.pathAlong way
  let _ ← (registration.settings.field? path).bind FieldSettings.references
  let reference ← (registration.referenceNames names member.2 path).toOption
  return path.parent.child reference.exported

/-- Whether a field is that of the member that a way leads to. -/
structure Describes (registration : Registration) (way : Way) (field : Field) : Prop where
  names : (registration.namesAlong way).getLast? = some field.names
  path : field.path = registration.pathAlong way
  shape : way.getLast?.map Prod.snd = some field.shape
  settings : field.settings = registration.settings.field? field.path
  reference : field.reference.isSome = field.references?.isSome
  referencePath : field.referencePath? = registration.referenceAlong? way
  resolves : field.resolves = none

/-- The field that is registered for a member is that of its way. -/
theorem describes_of_field
    (registered : registration.field (registration.pathAlong outer) member.1 member.2 =
      .ok field) : registration.Describes (outer ++ [member]) field := by
  have names := registration.namesAlong_concat outer member
  have path := registration.pathAlong_concat outer member
  unfold Registration.field at registered
  dsimp only at registered
  split at registered
  · rename_i isReferencing
    rcases Outcome.of_bind_eq_ok registered with ⟨reference, named, made⟩
    cases made
    rcases Option.isSome_iff_exists.mp isReferencing with ⟨references, found⟩
    cases outcome : registration.referenceNames _ member.2 _ with
    | error error =>
        rw [outcome] at named
        cases named
    | ok referenceNames =>
        rw [outcome] at named
        cases named
        refine ⟨by simp [names], path.symm, by simp, rfl, ?_, ?_, rfl⟩
        · simp [Field.references?, found]
        · simp [Field.referencePath?, referenceAlong?, names, path, found, outcome, Except.toOption]
  · rename_i noReferences
    cases registered
    have absent := Option.not_isSome_iff_eq_none.mp noReferences
    refine ⟨by simp [names], path.symm, by simp, rfl, ?_, ?_, rfl⟩
    · simp [Field.references?, absent]
    · simp [Field.referencePath?, referenceAlong?, names, path, absent]

theorem fieldsBelow_eq (path : FieldPath) (shape : Shape) :
    fieldsBelow registration path shape = fieldsOf registration path shape.membersBelow := by
  unfold membersBelow
  split
  · rw [fieldsBelow]
  · rw [fieldsBelow]
  · rw [fieldsBelow]
  · rename_i noStruct noSequence noMapping
    rw [fieldsBelow, fieldsOf]
    · exact noStruct
    · exact noSequence
    · exact noMapping

/-- The registered fields are those of the reached members in order. -/
theorem forall₂_fieldsOf (members : List (String × Shape)) :
    ∀ index outer fields,
      fieldsOf registration (registration.pathAlong outer) members = .ok fields →
        List.Forall₂ (fun entry field => registration.Describes (outer ++ entry.2) field)
          (reachedFrom index members) fields := by
  induction members using membersInduction with
  | nil =>
      intro index outer fields registered
      rw [fieldsOf] at registered
      cases registered
      rw [reachedFrom]
      exact .nil
  | cons member rest below ofRest =>
      intro index outer fields registered
      rw [fieldsOf] at registered
      rcases Outcome.of_bind_eq_ok registered with ⟨field, isField, registered⟩
      rcases Outcome.of_bind_eq_ok registered with ⟨belowFields, areBelow, registered⟩
      rcases Outcome.of_bind_eq_ok registered with ⟨others, areOthers, made⟩
      cases made
      have described := describes_of_field isField
      rw [fieldsBelow_eq, described.path] at areBelow
      rw [reachedFrom_cons]
      refine List.rel_append ?_ (.cons described (ofRest (index + 1) outer others areOthers))
      rw [List.forall₂_map_left_iff]
      have inner := below 0 (outer ++ [member]) belowFields areBelow
      simp only [List.append_assoc, List.singleton_append] at inner
      exact inner

theorem fieldsOfRoot_ok {resource : String} {root : FieldRoot} {shape : Shape}
    {fields : OrderedMap Field}
    (registered : registration.fieldsOfRoot resource root shape = .ok fields) :
    ∃ declared, fieldsOf registration .empty shape.membersBelow = .ok declared ∧
      fields = OrderedMap.ofList (declared.map Field.entry) := by
  cases shape with
  | struct name members =>
      rcases Outcome.of_bind_eq_ok registered with ⟨declared, areFields, made⟩
      cases made
      exact ⟨declared, areFields, rfl⟩
  | scalar name kind => cases registered
  | sequence name element => cases registered
  | mapping name key value => cases registered

/-! ### Texts of paths -/

/-- The texts of the paths of reached members. -/
def memberTexts (registration : Registration) (members : List (String × Shape)) : List String :=
  (reached members).map (fun entry => (registration.pathAlong entry.2).text)

/-- The texts of the paths of the reference fields of reached members. -/
def referenceTexts (registration : Registration) (members : List (String × Shape)) : List String :=
  ((reached members).filterMap (fun entry => registration.referenceAlong? entry.2)).map
    FieldPath.text

variable {members : List (String × Shape)} {declared : List Field}

/-- The fields that are registered for members without outer ones. -/
theorem forall₂_described (registered : fieldsOf registration .empty members = .ok declared) :
    List.Forall₂ (fun entry field => registration.Describes entry.2 field) (reached members)
      declared :=
  forall₂_fieldsOf members 0 [] declared registered

theorem memberTexts_eq (registered : fieldsOf registration .empty members = .ok declared) :
    registration.memberTexts members = declared.map (fun field => field.path.text) := by
  rw [memberTexts, ← List.forall₂_eq_eq_eq, List.forall₂_map_left_iff, List.forall₂_map_right_iff]
  apply (forall₂_described registered).imp
  intro entry field described
  rw [described.path]

theorem referenceTexts_eq (registered : fieldsOf registration .empty members = .ok declared) :
    registration.referenceTexts members =
      (declared.filterMap Field.referenceField?).map (fun field => field.path.text) := by
  have same : (reached members).map (fun entry => registration.referenceAlong? entry.2) =
      declared.map Field.referencePath? := by
    rw [← List.forall₂_eq_eq_eq, List.forall₂_map_left_iff, List.forall₂_map_right_iff]
    apply (forall₂_described registered).imp
    intro entry field described
    exact described.referencePath.symm
  have paths := congrArg (List.filterMap id) same
  rw [List.filterMap_map, List.filterMap_map, Function.id_comp, Function.id_comp] at paths
  rw [referenceTexts, paths, List.map_filterMap, List.map_filterMap]
  apply List.filterMap_congr
  intro field _
  rw [← Field.path_referenceField?, Option.map_map]
  rfl

/-! ### Registries -/

/--
Whether fields mirror members: one field for each reached member, in the order of declaration and
behind those of the members below it, and reference fields at the end. Fields are filed under
their paths, and so is whatever has fields below it.
-/
structure Mirrors (registration : Registration) (members : List (String × Shape))
    (declared references : List Field) (fields : OrderedMap Field) : Prop where
  entries : fields.entries = (declared ++ references).map Field.entry
  reached : ∃ places : List (List Nat), places.Nodup ∧ places.Pairwise Precedes ∧
    (∀ place, place ∈ places ↔ ∃ way, IsReached members place way) ∧
      List.Forall₂ (fun place field => ∃ way, IsReached members place way ∧
        registration.Describes way field) places declared
  closed : ∀ field ∈ declared ++ references, 1 < field.path.length →
    field.path.parent.text ∈ fields.keys

/-- The field of each reached member is registered. -/
theorem exists_field (registered : fieldsOf registration .empty members = .ok declared)
    {place : List Nat} (reaches : IsReached members place way) :
    ∃ field ∈ declared, registration.Describes way field :=
  exists_right_of_mem (forall₂_described registered) (mem_reached.mpr reaches)

theorem isSome_referenceField? (registered : fieldsOf registration .empty members = .ok declared)
    (listed : field ∈ declared) : field.references?.isSome = field.referenceField?.isSome := by
  rcases exists_left_of_mem (forall₂_described registered) listed with ⟨entry, _, described⟩
  rw [← described.reference, ← Option.isSome_map (f := Field.path), Field.path_referenceField?,
    Field.referencePath?, Option.isSome_map]

theorem exists_way (registered : fieldsOf registration .empty members = .ok declared)
    (listed : field ∈ declared) :
    ∃ place way, IsReached members place way ∧ registration.Describes way field := by
  rcases exists_left_of_mem (forall₂_described registered) listed with
    ⟨⟨place, way⟩, isReached, described⟩
  exact ⟨place, way, mem_reached.mp isReached, described⟩

/-- What has registered fields below it is registered. -/
theorem exists_outer (registered : fieldsOf registration .empty members = .ok declared)
    (listed : field ∈ declared) (deep : 1 < field.path.length) :
    ∃ outer ∈ declared, outer.path = field.path.parent := by
  rcases exists_way registered listed with ⟨place, way, reaches, described⟩
  rw [described.path, length_pathAlong] at deep
  rcases exists_field registered (reaches.outer deep) with ⟨outer, isDeclared, ofOuter⟩
  exact ⟨outer, isDeclared, by rw [ofOuter.path, described.path, parent_pathAlong]⟩

theorem mirrors_of_fieldsOf (registered : fieldsOf registration .empty members = .ok declared)
    {references : List Field} {fields : OrderedMap Field}
    (entries : fields.entries = (declared ++ references).map Field.entry)
    (besides : ∀ reference ∈ references, ∃ field ∈ declared,
      field.referenceField? = some reference) :
    registration.Mirrors members declared references fields where
  entries := entries
  reached := by
    refine ⟨(Shape.reached members).map Prod.fst, ?_, ?_, ?_, ?_⟩
    · rw [List.Nodup, List.pairwise_map]
      exact (pairwise_reached members).imp (fun precedes => precedes.ne)
    · rw [List.pairwise_map]
      exact pairwise_reached members
    · intro place
      simp only [List.mem_map, Prod.exists, mem_reached, exists_and_right, exists_eq_right]
    · rw [List.forall₂_map_left_iff]
      have each : ∀ entry ∈ Shape.reached members, IsReached members entry.1 entry.2 :=
        fun entry listed => mem_reached.mp listed
      apply ((List.forall₂_and_left (Shape.reached members) declared).mpr
        ⟨each, forall₂_described registered⟩).imp
      rintro ⟨place, way⟩ field ⟨reaches, described⟩
      exact ⟨way, reaches, described⟩
  closed := by
    have isKey : ∀ field ∈ declared, field.path.text ∈ fields.keys := by
      intro field listed
      rw [OrderedMap.keys, entries]
      exact List.mem_map_of_mem (List.mem_map_of_mem (List.mem_append_left _ listed))
    intro field listed deep
    rcases List.mem_append.mp listed with isDeclared | isReference
    · rcases exists_outer registered isDeclared deep with ⟨outer, outerDeclared, same⟩
      rw [← same]
      exact isKey outer outerDeclared
    · -- A reference field lies next to a declared one.
      rcases besides field isReference with ⟨origin, isDeclared, found⟩
      have beside := (Resource.referenceField?_eq_some found).1
      have originDeep : 1 < origin.path.length := by
        rw [beside] at deep
        simp only [FieldPath.length, FieldPath.segments_child, FieldPath.parent,
          List.length_append, List.length_dropLast, List.length_singleton] at deep ⊢
        omega
      rcases exists_outer registered isDeclared originDeep with ⟨outer, outerDeclared, same⟩
      rw [beside, FieldPath.parent_child, ← same]
      exact isKey outer outerDeclared

end Registration

/-- The members of the observed state of a definition, if it has one. -/
def ResourceDefinition.observed (definition : ResourceDefinition) : List (String × Shape) :=
  (definition.status.map Shape.membersBelow).getD []

namespace Resource

open Shape

/-- What the fields of a definition are registered with. -/
def registrationOf (definition : ResourceDefinition) (settings : Settings)
    (normalizer : Normalizer) : Registration where
  normalizer
  settings := (settings.resources.get? definition.name).getD {}
  renames := OrderedMap.ofList ((settings.resources.get? definition.name).getD {}).fieldRenames

variable {definition : ResourceDefinition} {settings : Settings} {normalizer : Normalizer}
  {resource : Resource}

/-- The fields of a resource are those that are registered for its definition. -/
theorem registered_of_ofDefinition
    (joined : ofDefinition definition settings normalizer = .ok resource) :
    ∃ declared observed,
      (registrationOf definition settings normalizer).fieldsOf .empty
        definition.spec.membersBelow = .ok declared ∧
      (registrationOf definition settings normalizer).fieldsOf .empty
        definition.observed = .ok observed ∧
      resource.specFields = withReferenceFields (OrderedMap.ofList (declared.map Field.entry)) ∧
      resource.statusFields = OrderedMap.ofList (observed.map Field.entry) := by
  rcases Outcome.of_bind_eq_ok joined with ⟨specFields, ofSpec, joined⟩
  rcases Registration.fieldsOfRoot_ok ofSpec with ⟨declared, areDeclared, rfl⟩
  unfold ResourceDefinition.observed
  dsimp only at joined
  split at joined
  · rename_i status hasStatus
    rcases Outcome.of_bind_eq_ok joined with ⟨statusFields, ofStatus, made⟩
    cases made
    rcases Registration.fieldsOfRoot_ok ofStatus with ⟨observed, areObserved, rfl⟩
    rw [hasStatus]
    exact ⟨declared, observed, areDeclared, areObserved, rfl, rfl⟩
  · rename_i noStatus
    cases joined
    rw [noStatus]
    exact ⟨declared, [], areDeclared, rfl, rfl, rfl⟩

theorem settings_of_ofDefinition
    (joined : ofDefinition definition settings normalizer = .ok resource) :
    resource.settings = (settings.resources.get? definition.name).getD {} := by
  rcases Outcome.of_bind_eq_ok joined with ⟨specFields, _, joined⟩
  dsimp only at joined
  split at joined
  · rcases Outcome.of_bind_eq_ok joined with ⟨statusFields, _, made⟩
    cases made
    rfl
  · cases joined
    rfl

theorem keys_entry (fields : List Field) :
    Entries.keys (fields.map Field.entry) = fields.map (fun field => field.path.text) := by
  simp [Entries.keys, Field.entry, Function.comp_def]

/-- Fields with distinct paths are all kept. -/
theorem entries_ofList_entry {fields : List Field}
    (distinct : (fields.map (fun field => field.path.text)).Nodup) :
    (OrderedMap.ofList (fields.map Field.entry)).entries = fields.map Field.entry := by
  rw [← keys_entry] at distinct
  exact OrderedMap.entries_ofList distinct

theorem values_ofList_entry {fields : List Field}
    (distinct : (fields.map (fun field => field.path.text)).Nodup) :
    (OrderedMap.ofList (fields.map Field.entry)).values = fields := by
  rw [OrderedMap.values, entries_ofList_entry distinct]
  simp [Entries.values, Field.entry, Function.comp_def]

/-- Fields with distinct paths are all kept, and so are their reference fields. -/
theorem entries_withReferenceFields {declared : List Field}
    (distinct : ((declared ++ declared.filterMap Field.referenceField?).map
      (fun field => field.path.text)).Nodup) :
    (withReferenceFields (OrderedMap.ofList (declared.map Field.entry))).entries =
      (declared ++ declared.filterMap Field.referenceField?).map Field.entry := by
  rw [List.map_append] at distinct
  have declaredDistinct := (List.nodup_append.mp distinct).1
  rw [withReferenceFields, values_ofList_entry declaredDistinct, OrderedMap.entries_insertAll,
    entries_ofList_entry declaredDistinct, List.map_append]
  rw [OrderedMap.keys, entries_ofList_entry declaredDistinct, keys_entry, keys_entry]
  exact distinct

/--
The registry of a resource mirrors its definition, in desired state with the reference fields in
the order of the fields that they stand in for, if no two fields of a part have the same path.
-/
theorem registries_mirror (definition : ResourceDefinition) (settings : Settings)
    (normalizer : Normalizer) (resource : Resource)
    (joined : ofDefinition definition settings normalizer = .ok resource) :
    let registration := registrationOf definition settings normalizer
    (registration.memberTexts definition.spec.membersBelow ++
        registration.referenceTexts definition.spec.membersBelow).Nodup →
      (registration.memberTexts definition.observed).Nodup →
        (∃ declared references,
          registration.Mirrors definition.spec.membersBelow declared references
            resource.specFields ∧
          List.Forall₂ (fun field reference => field.referenceField? = some reference ∧
              reference.resolves = some field.path)
            (declared.filter (fun field => field.references?.isSome)) references) ∧
        ∃ observed,
          registration.Mirrors definition.observed observed [] resource.statusFields := by
  intro registration specDistinct statusDistinct
  rcases registered_of_ofDefinition joined with ⟨declared, observed, areDeclared, areObserved,
    specFields, statusFields⟩
  rw [Registration.memberTexts_eq areDeclared, Registration.referenceTexts_eq areDeclared,
    ← List.map_append] at specDistinct
  rw [Registration.memberTexts_eq areObserved] at statusDistinct
  refine ⟨⟨declared, declared.filterMap Field.referenceField?, ?_, ?_⟩, observed, ?_⟩
  · apply Registration.mirrors_of_fieldsOf areDeclared
    · rw [specFields, entries_withReferenceFields specDistinct]
    · intro reference listed
      rcases List.mem_filterMap.mp listed with ⟨field, isDeclared, found⟩
      exact ⟨field, isDeclared, found⟩
  · have each := forall₂_filterMap (fun field isDeclared =>
      Registration.isSome_referenceField? areDeclared isDeclared)
    apply each.imp
    intro field reference found
    exact ⟨found, (Field.referenceField?_ok found).1⟩
  · apply Registration.mirrors_of_fieldsOf areObserved
    · rw [statusFields, entries_ofList_entry statusDistinct, List.append_nil]
    · simp

/-- Desired state with a list of structures, and observed state. -/
def bucketDefinition : ResourceDefinition where
  name := "Bucket"
  spec := .struct "BucketSpec" [
    ("Rules", .sequence "RuleList" (.struct "Rule" [("RoleARN", Shape.scalarOf .string)])),
    ("BucketName", Shape.scalarOf .string)]
  status := some (.struct "BucketStatus" [("Arn", Shape.scalarOf .string)])
  operations := ∅

/-- Settings that take a nested member from another resource and rename an outermost one. -/
def roleFromIam : Settings where
  resources := .ofList [("Bucket", {
    fields := .ofList [("Rules.RoleARN", {
      references := some {
        resource := "Role", service := some "iam", path := "Status.ARN",
        skipStateCheck := false } })]
    renames := .ofList [("CreateBucket", { input := .ofList [("BucketName", "Name")] })] })]

theorem registries_mirror_bucket :
    ∃ resource, ofDefinition bucketDefinition roleFromIam .default = .ok resource ∧
      resource.specFields.keys = ["Rules.RoleARN", "Rules", "Name", "Rules.RoleRef"] ∧
      (∃ declared references,
        (registrationOf bucketDefinition roleFromIam .default).Mirrors
          bucketDefinition.spec.membersBelow declared references resource.specFields ∧
        List.Forall₂ (fun field reference => field.referenceField? = some reference ∧
            reference.resolves = some field.path)
          (declared.filter (fun field => field.references?.isSome)) references) ∧
      ∃ observed, (registrationOf bucketDefinition roleFromIam .default).Mirrors
        bucketDefinition.observed observed [] resource.statusFields := by
  have facts : ∃ resource ∈ (ofDefinition bucketDefinition roleFromIam .default).toOption,
      resource.specFields.keys = ["Rules.RoleARN", "Rules", "Name", "Rules.RoleRef"] := by
    decide +kernel
  rcases facts with ⟨resource, made, keys⟩
  have joined := Outcome.of_mem_toOption made
  exact ⟨resource, joined, keys, registries_mirror bucketDefinition roleFromIam .default resource
    joined (by decide +kernel) (by decide +kernel)⟩

end Resource

end Reconcile
