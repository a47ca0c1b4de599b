import Mathlib.Algebra.Order.Group.Multiset
import Mathlib.Data.List.Find
import Reconcile.Proofs.Resource.Apart

/-!
# Registration of reordered definitions

The order in which members are declared is the order of their fields. Nothing but the order changes
with it (`Registration.seenOf?_eq`), and where the paths of fields differ by more than letter case,
their order does not show in what comparisons see of a resource
(`Resource.alike_of_reordered`).
-/

namespace Reconcile

open Shape

/-- The field with what comparisons see of its shape. -/
def Field.canonical (field : Field) : Field :=
  { field with shape := field.shape.canonical }

theorem Field.referenceField?_canonical (field : Field) :
    field.canonical.referenceField? = field.referenceField? := by
  simp only [referenceField?, referencePath?, canonical, isSequence_canonical]

namespace Registration

variable {registration : Registration} {members : List (String × Shape)}

/-- The fields of members as comparisons see them, without an order. -/
def seenOf? (registration : Registration) (parent : FieldPath) (members : List (String × Shape)) :
    Option (Multiset Field) :=
  (registration.fieldsOf parent members).toOption.map (fun fields =>
    Multiset.ofList (fields.map Field.canonical))

/-- The fields of a member and of what is below it as comparisons see them. -/
def seenOfMember? (registration : Registration) (parent : FieldPath) (member : String × Shape) :
    Option (Multiset Field) := do
  let field ← ((registration.field parent member.1 member.2).map Field.canonical).toOption
  let below ← registration.seenOf? field.path member.2.membersBelow
  return field ::ₘ below

theorem seenOf?_cons (parent : FieldPath) (member : String × Shape)
    (rest : List (String × Shape)) :
    registration.seenOf? parent (member :: rest) =
      (registration.seenOfMember? parent member).bind (fun first =>
        (registration.seenOf? parent rest).map (first + ·)) := by
  rw [seenOf?, seenOfMember?, fieldsOf]
  cases registration.field parent member.1 member.2 with
  | error error => rfl
  | ok field =>
      have path : field.canonical.path = field.path := rfl
      simp only [bind, Except.bind, Except.map, Except.toOption, Option.bind_some, path, seenOf?,
        fieldsBelow_eq]
      cases fieldsOf registration field.path member.2.membersBelow with
      | error error => rfl
      | ok below =>
          cases fieldsOf registration parent rest with
          | error error => rfl
          | ok others =>
              simp only [Option.map_some, Option.bind_some, pure, Except.pure, List.map_append,
                List.map_cons, ← Multiset.coe_add, ← Multiset.cons_coe, Multiset.cons_add,
                Multiset.add_cons]

theorem seenOf?_eq_of_perm {others : List (String × Shape)} (same : members.Perm others)
    (parent : FieldPath) :
    registration.seenOf? parent members = registration.seenOf? parent others := by
  induction same with
  | nil => rfl
  | cons member _ ih => rw [seenOf?_cons, seenOf?_cons, ih]
  | swap first second rest =>
      simp only [seenOf?_cons]
      cases registration.seenOfMember? parent first <;>
        cases registration.seenOfMember? parent second <;>
        cases registration.seenOf? parent rest <;>
        simp [add_left_comm]
  | trans _ _ first second => exact first.trans second

/-- What comparisons see of a field does not show more of its shape than they see of that. -/
theorem field_map_canonical (parent : FieldPath) (name : String) {shape other : Shape}
    (same : shape.canonical = other.canonical) :
    (registration.field parent name shape).map Field.canonical =
      (registration.field parent name other).map Field.canonical := by
  have sameForm : shape.isSequence = other.isSequence := by
    rw [← isSequence_canonical shape, same, isSequence_canonical]
  have sameNames : ∀ names path, registration.referenceNames names shape path =
      registration.referenceNames names other path := by
    intro names path
    rw [referenceNames, referenceNames, sameForm]
  unfold field
  dsimp only
  rw [sameNames]
  split
  · cases registration.referenceNames _ other _ with
    | error error => rfl
    | ok names => simp only [Functor.map, Except.map, bind, Except.bind, pure, Except.pure,
        Field.canonical, same]
  · simp only [Except.map, bind, Except.bind, pure, Except.pure, Field.canonical, same]

/-- What is seen below a structure and its reordering is seen below collections that hold them. -/
theorem seenOf?_held {element other : Shape} (inner : element.Reordered other)
    (apart : NamedApart (if element.isStructure then element.membersBelow else []))
    (ih : NamedApart element.membersBelow → ∀ parent,
      registration.seenOf? parent element.membersBelow =
        registration.seenOf? parent other.membersBelow) (parent : FieldPath) :
    registration.seenOf? parent (if element.isStructure then element.membersBelow else []) =
      registration.seenOf? parent (if other.isStructure then other.membersBelow else []) := by
  rw [← inner.isStructure_eq]
  split
  · rename_i isStructure
    rw [if_pos isStructure] at apart
    exact ih apart parent
  · rfl

/-- Reordered shapes have the same fields below them in another order. -/
theorem seenOf?_eq {shape other : Shape} (reordered : shape.Reordered other) :
    NamedApart shape.membersBelow → ∀ parent,
      registration.seenOf? parent shape.membersBelow =
        registration.seenOf? parent other.membersBelow := by
  induction reordered with
  | refl shape =>
      intro _ parent
      rfl
  | trans first _ ihFirst ihSecond =>
      intro apart parent
      exact (ihFirst apart parent).trans (ihSecond (first.canonical_eq apart).2 parent)
  | permuted name same =>
      intro _ parent
      exact seenOf?_eq_of_perm same parent
  | @member shape other name memberName front back inner ih =>
      intro apart parent
      have below := apart.inner (List.mem_append_right front List.mem_cons_self)
      have sameMember : registration.seenOfMember? parent (memberName, shape) =
          registration.seenOfMember? parent (memberName, other) := by
        rw [seenOfMember?, seenOfMember?,
          field_map_canonical parent memberName (inner.canonical_eq below).1]
        simp only [ih below]
      -- The member that changes is moved to the front, past members that stay as they are.
      have moved : ∀ member : String × Shape,
          registration.seenOf? parent (front ++ member :: back) =
            registration.seenOf? parent (member :: (front ++ back)) :=
        fun member => seenOf?_eq_of_perm List.perm_middle parent
      rw [membersBelow, membersBelow, moved, moved, seenOf?_cons, seenOf?_cons, sameMember]
  | @element element other name inner ih =>
      intro apart parent
      rw [membersBelow_sequence] at apart
      rw [membersBelow_sequence, membersBelow_sequence]
      exact seenOf?_held inner apart ih parent
  | @value value other name key inner ih =>
      intro apart parent
      rw [membersBelow_mapping] at apart
      rw [membersBelow_mapping, membersBelow_mapping]
      exact seenOf?_held inner apart ih parent

/--
Whether no two fields of members, reference fields included, have paths that differ by letter case
only.
-/
def PathsApart (registration : Registration) (members : List (String × Shape)) : Prop :=
  ((registration.memberTexts members ++ registration.referenceTexts members).map
    Text.lower).Nodup

instance : DecidablePred registration.PathsApart :=
  fun _ => inferInstanceAs (Decidable (List.Nodup _))

theorem PathsApart.namedApart (apart : registration.PathsApart members) : NamedApart members :=
  (textsApart_of_nodup members 0 [] apart.of_map.of_append_left).namedApart

theorem exists_fieldsOfRoot {resource : String} {root : FieldRoot} {shape other : Shape}
    (form : shape.bare = other.bare)
    (same : registration.seenOf? .empty shape.membersBelow =
      registration.seenOf? .empty other.membersBelow)
    {fields : OrderedMap Field}
    (registered : registration.fieldsOfRoot resource root shape = .ok fields) :
    ∃ others, registration.fieldsOfRoot resource root other = .ok others := by
  cases shape with
  | struct name members =>
      cases other with
      | struct otherName others =>
          rcases fieldsOfRoot_ok registered with ⟨declared, areDeclared, _⟩
          rw [membersBelow] at areDeclared
          rw [membersBelow, membersBelow, seenOf?, areDeclared] at same
          unfold fieldsOfRoot
          dsimp only
          cases outcome : registration.fieldsOf .empty others with
          | error error =>
              rw [seenOf?, outcome] at same
              cases same
          | ok fields => exact ⟨_, rfl⟩
      | scalar otherName kind => cases form
      | sequence otherName element => cases form
      | mapping otherName key value => cases form
  | scalar name kind => cases registered
  | sequence name element => cases registered
  | mapping name key value => cases registered

/-- Fields that are registered for the same members look the same up to their order. -/
theorem perm_of_seenOf?_eq {others : List (String × Shape)} {parent : FieldPath}
    (same : registration.seenOf? parent members = registration.seenOf? parent others)
    {fields otherFields : List Field}
    (areFields : registration.fieldsOf parent members = .ok fields)
    (areOthers : registration.fieldsOf parent others = .ok otherFields) :
    (fields.map Field.canonical).Perm (otherFields.map Field.canonical) := by
  rw [seenOf?, seenOf?, areFields, areOthers] at same
  exact Multiset.coe_eq_coe.mp (Option.some.inj same)

end Registration

namespace Entries

variable {α : Type}

/-- Where names differ by more than letter case, a name is looked up ignoring letter case. -/
theorem closest?_eq_find? {entries : Entries α}
    (apart : (entries.map (fun entry => Text.lower entry.1)).Nodup) (name : String) :
    entries.closest? name =
      entries.find? (fun entry => Text.equalIgnoringCase entry.1 name) := by
  rw [closest?]
  cases exact : entries.lookup? name with
  | none => rw [Option.none_or]
  | some entry =>
      have isEntry := List.mem_of_find?_eq_some exact
      have named : entry.1 = name := by simpa using List.find?_some exact
      rw [Option.some_or]
      cases found : entries.find? (fun entry => Text.equalIgnoringCase entry.1 name) with
      | none =>
          have differs := List.find?_eq_none.mp found entry isEntry
          rw [named] at differs
          exact absurd (Text.equalIgnoringCase_refl name) differs
      | some other =>
          have similar := List.find?_some found
          rw [Text.equalIgnoringCase_iff, ← named] at similar
          rw [List.inj_on_of_nodup_map apart (List.mem_of_find?_eq_some found) isEntry similar]

end Entries

namespace Resource

/-- Whether comparisons see the same of two resources. -/
structure Alike (left right : Resource) : Prop where
  settings : left.settings = right.settings
  tags : left.tagField.map (Option.map Field.path) = right.tagField.map (Option.map Field.path)
  fields : left.topLevelFields.map Field.canonical = right.topLevelFields.map Field.canonical

variable {left right resource : Resource} {fields others : List Field}

/-- Where paths differ by more than letter case, a path is looked up ignoring letter case. -/
theorem path_field? (areFields : resource.specFields.entries = fields.map Field.entry)
    (apart : (fields.map (fun field => Text.lower field.path.text)).Nodup) (text : String) :
    (resource.field? .spec text).map Field.path =
      (fields.map Field.path).find? (fun path => Text.equalIgnoringCase path.text text) := by
  have keysApart : ((fields.map Field.entry).map (fun entry => Text.lower entry.1)).Nodup := by
    rw [List.map_map]
    exact apart
  rw [field?, Resource.fields, OrderedMap.closest?, areFields,
    Entries.closest?_eq_find? keysApart, List.find?_map, List.find?_map, Option.map_map,
    Option.map_map]
  rfl

theorem path_field?_eq_of_perm (ofLeft : left.specFields.entries = fields.map Field.entry)
    (ofRight : right.specFields.entries = others.map Field.entry)
    (same : (fields.map Field.path).Perm (others.map Field.path))
    (apart : (fields.map (fun field => Text.lower field.path.text)).Nodup) (text : String) :
    (left.field? .spec text).map Field.path = (right.field? .spec text).map Field.path := by
  have lowered : (fields.map Field.path).map (fun path => Text.lower path.text) =
      fields.map (fun field => Text.lower field.path.text) := List.map_map
  have otherLowered : (others.map Field.path).map (fun path => Text.lower path.text) =
      others.map (fun field => Text.lower field.path.text) := List.map_map
  have othersApart : (others.map (fun field => Text.lower field.path.text)).Nodup := by
    rw [← otherLowered, ← (same.map _).nodup_iff, lowered]
    exact apart
  rw [path_field? ofLeft apart, path_field? ofRight othersApart]
  apply List.find?_eq_find?_of_perm same
  rintro first ⟨isFirst, firstSimilar⟩ second ⟨isSecond, secondSimilar⟩
  rw [← lowered] at apart
  apply List.inj_on_of_nodup_map apart isFirst isSecond
  rw [Text.equalIgnoringCase_iff.mp firstSimilar, Text.equalIgnoringCase_iff.mp secondSimilar]

theorem topLevelFields_map_canonical
    (areFields : resource.specFields.entries = fields.map Field.entry) :
    resource.topLevelFields.map Field.canonical =
      Text.sortedBy (fun field => field.names.exported)
        ((fields.map Field.canonical).filter (fun field => field.path.length == 1)) := by
  have values : resource.specFields.values = fields := by
    rw [OrderedMap.values, areFields]
    simp [Entries.values, Field.entry, Function.comp_def]
  rw [topLevelFields, values, List.filter_map, Text.sortedBy_map]
  rfl

/-- Resources with the same fields in different orders look alike to comparisons. -/
theorem alike_of_perm (settings : left.settings = right.settings) (names : left.names = right.names)
    (ofLeft : left.specFields.entries = fields.map Field.entry)
    (ofRight : right.specFields.entries = others.map Field.entry)
    (same : (fields.map Field.canonical).Perm (others.map Field.canonical))
    (apart : (fields.map (fun field => Text.lower field.path.text)).Nodup)
    (filed : ∀ field ∈ fields, field.IsFiled) : left.Alike right where
  settings := settings
  tags := by
    have samePaths : (fields.map Field.path).Perm (others.map Field.path) := by
      have paths := same.map Field.path
      rw [List.map_map, List.map_map] at paths
      exact paths
    have found := path_field?_eq_of_perm ofLeft ofRight samePaths apart left.settings.tags.path
    rw [tagField, tagField, ← settings, ← names]
    split
    · rfl
    · cases inLeft : left.field? .spec left.settings.tags.path with
      | none =>
          cases inRight : right.field? .spec left.settings.tags.path with
          | none => rfl
          | some other =>
              rw [inLeft, inRight] at found
              cases found
      | some field =>
          cases inRight : right.field? .spec left.settings.tags.path with
          | none =>
              rw [inLeft, inRight] at found
              cases found
          | some other =>
              rw [inLeft, inRight] at found
              exact congrArg Except.ok found
  fields := by
    rw [topLevelFields_map_canonical ofLeft, topLevelFields_map_canonical ofRight]
    apply Text.sortedBy_eq_of_perm (same.filter _)
    have outermost :
        ((fields.map Field.canonical).filter (fun field => field.path.length == 1)).map
            (fun field => field.names.exported) =
          (fields.filter (fun field => field.path.length == 1)).map
            (fun field => field.path.text) := by
      rw [List.filter_map, List.map_map]
      apply List.map_congr_left
      intro field listed
      rw [List.mem_filter] at listed
      exact ((filed field listed.1).text (beq_iff_eq.mp listed.2)).symm
    have lowered : (fields.map (fun field => field.path.text)).map Text.lower =
        fields.map (fun field => Text.lower field.path.text) := List.map_map
    rw [← lowered] at apart
    rw [outermost]
    exact apart.of_map.sublist (List.filter_sublist.map _)

/-! ### Reordered definitions -/

section

variable {definition : ResourceDefinition} {settings : Settings} {normalizer : Normalizer}
  {spec : Shape}

/-- What a definition becomes with another desired state whose fields can be registered. -/
theorem ofDefinition_with_spec (joined : ofDefinition definition settings normalizer = .ok resource)
    {specFields : OrderedMap Field}
    (registered : (registrationOf definition settings normalizer).fieldsOfRoot definition.name .spec
      spec = .ok specFields) :
    ofDefinition { definition with spec } settings normalizer =
      .ok { resource with specFields := withReferenceFields specFields } := by
  rcases Outcome.of_bind_eq_ok joined with ⟨_, _, joined⟩
  unfold ofDefinition
  dsimp only at joined ⊢
  rw [registrationOf] at registered
  rw [registered]
  split at joined
  · rename_i status hasStatus
    rcases Outcome.of_bind_eq_ok joined with ⟨statusFields, ofStatus, made⟩
    cases made
    simp only [bind, Except.bind, ofStatus, pure, Except.pure]
  · cases joined
    rfl

theorem exists_ofDefinition_of_seenOf?_eq (definition : ResourceDefinition) (spec : Shape)
    (form : definition.spec.bare = spec.bare)
    (same : (registrationOf definition settings normalizer).seenOf? .empty
        definition.spec.membersBelow =
      (registrationOf definition settings normalizer).seenOf? .empty spec.membersBelow)
    (joined : ofDefinition definition settings normalizer = .ok resource) :
    ∃ other, ofDefinition { definition with spec } settings normalizer = .ok other := by
  rcases Outcome.of_bind_eq_ok joined with ⟨specFields, ofSpec, _⟩
  rcases Registration.exists_fieldsOfRoot form same ofSpec with ⟨others, ofOther⟩
  exact ⟨_, ofDefinition_with_spec joined ofOther⟩

/-- Whether a definition becomes a resource does not depend on the order of declaration. -/
theorem exists_ofDefinition_iff_of_reordered (reordered : definition.spec.Reordered spec)
    (apart : NamedApart definition.spec.membersBelow) :
    (∃ resource, ofDefinition definition settings normalizer = .ok resource) ↔
      ∃ other, ofDefinition { definition with spec } settings normalizer = .ok other := by
  have same : (registrationOf definition settings normalizer).seenOf? .empty
        definition.spec.membersBelow =
      (registrationOf definition settings normalizer).seenOf? .empty spec.membersBelow :=
    Registration.seenOf?_eq reordered apart .empty
  constructor
  · rintro ⟨resource, joined⟩
    exact exists_ofDefinition_of_seenOf?_eq definition spec reordered.bare_eq same joined
  · rintro ⟨other, joined⟩
    exact exists_ofDefinition_of_seenOf?_eq { definition with spec } definition.spec
      reordered.bare_eq.symm same.symm joined

/-- Registered fields and the reference fields of them. -/
def withReferences (declared : List Field) : List Field :=
  declared ++ declared.filterMap Field.referenceField?

theorem perm_withReferences {declared others : List Field}
    (same : (declared.map Field.canonical).Perm (others.map Field.canonical)) :
    ((withReferences declared).map Field.canonical).Perm
      ((withReferences others).map Field.canonical) := by
  have kept : ∀ fields : List Field, fields.filterMap Field.referenceField? =
      (fields.map Field.canonical).filterMap Field.referenceField? := by
    intro fields
    rw [List.filterMap_map]
    exact List.filterMap_congr (fun field _ => field.referenceField?_canonical.symm)
  rw [withReferences, withReferences, List.map_append, List.map_append, kept declared, kept others]
  exact same.append ((same.filterMap _).map _)

/-- The order of declaration is not seen if no two paths differ by letter case only. -/
theorem alike_of_reordered (reordered : definition.spec.Reordered spec)
    (apart : (registrationOf definition settings normalizer).PathsApart
      definition.spec.membersBelow)
    (ofLeft : ofDefinition definition settings normalizer = .ok left)
    (ofRight : ofDefinition { definition with spec } settings normalizer = .ok right) :
    left.Alike right := by
  rcases registered_of_ofDefinition ofLeft with ⟨declared, _, areDeclared, _, leftFields, _⟩
  rcases registered_of_ofDefinition ofRight with ⟨others, _, areOthers, _, rightFields, _⟩
  rcases Outcome.of_bind_eq_ok ofRight with ⟨specFields, ofSpec, _⟩
  have replaced := ofDefinition_with_spec ofLeft ofSpec
  rw [ofRight] at replaced
  have same := perm_withReferences (Registration.perm_of_seenOf?_eq
    (Registration.seenOf?_eq reordered apart.namedApart .empty) areDeclared areOthers)
  rw [Registration.PathsApart, Registration.memberTexts_eq areDeclared,
    Registration.referenceTexts_eq areDeclared, ← List.map_append] at apart
  have otherTexts := same.map (fun field => field.path.text)
  rw [List.map_map, List.map_map] at otherTexts
  have distinct := apart.of_map
  have otherDistinct := otherTexts.nodup_iff.mp distinct
  rw [List.map_map] at apart
  have leftEntries : left.specFields.entries = (withReferences declared).map Field.entry := by
    rw [leftFields]
    exact entries_withReferenceFields distinct
  have rightEntries : right.specFields.entries = (withReferences others).map Field.entry := by
    rw [rightFields]
    exact entries_withReferenceFields otherDistinct
  refine alike_of_perm ?_ ?_ leftEntries rightEntries same apart ?_
  · cases replaced
    rfl
  · cases replaced
    rfl
  · intro field listed
    have isEntry : field.entry ∈ left.specFields.entries := by
      rw [leftEntries]
      exact List.mem_map_of_mem listed
    exact (filed_specFields ofLeft _ isEntry).2

end

end Resource

end Reconcile
