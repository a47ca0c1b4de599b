import Reconcile.Identifiers
import Reconcile.Proofs.Resource.Members
import Reconcile.Proofs.Text.Sorting

/-!
# Distinct identifiers

The identifiers of a resource are meant to be names of outermost fields, each of them once. The
names that are tried in order always are (`Resource.nodup_identifierCandidates`,
`Resource.exists_outermost_of_contains`). Primary keys are paths of fields at any depth and of both
parts, so they are distinct names of outermost fields exactly if they are set apart that way
(`Resource.identifiesByFields_iff`).
-/

namespace Reconcile

namespace Resource

variable {definition : ResourceDefinition} {settings : Settings} {normalizer : Normalizer}
  {resource : Resource} {field : Field} {name : String}

/-! ### Candidates -/

/-- The ends of candidates. -/
def candidateEndings : List String :=
  ["Id", "Ids", "Name", "Names"]

/-- No end of a candidate is the end of another one. -/
theorem eq_empty_of_append_eq {ending other : String} (isEnding : ending ∈ candidateEndings)
    (isOther : other ∈ candidateEndings) (same : name ++ ending = other) : name = "" := by
  have apart : ∀ left ∈ candidateEndings, ∀ right ∈ candidateEndings,
      left.toList <:+ right.toList → left = right := by
    decide
  have equal : ending = other := by
    apply apart ending isEnding other isOther
    exact ⟨name.toList, by rw [← same, String.toList_append]⟩
  rw [← equal] at same
  have letters := congrArg (fun text => text.toList.length) same
  rw [← String.toList_inj]
  simpa using letters

/-- No candidate is tried twice. -/
theorem nodup_identifierCandidates (named : resource.names.exported ≠ "") :
    resource.identifierCandidates.Nodup := by
  have split : resource.identifierCandidates =
      candidateEndings ++ ["Name", "Names", "Id", "Ids"].map (resource.names.exported ++ ·) := rfl
  have endings : ∀ ending ∈ ["Name", "Names", "Id", "Ids"], ending ∈ candidateEndings := by decide
  rw [split, List.nodup_append]
  refine ⟨by decide, List.Nodup.map ?_ (by decide), ?_⟩
  · intro left right same
    simpa [← String.toList_inj] using same
  · rintro plain isPlain _ isPrefixed rfl
    rcases List.mem_map.mp isPrefixed with ⟨ending, isEnding, same⟩
    exact named (eq_empty_of_append_eq (endings ending isEnding) isPlain same)

theorem dotless_of_candidate (dotless : '.' ∉ resource.names.exported.toList)
    (candidate : name ∈ resource.identifierCandidates) : '.' ∉ name.toList := by
  simp only [identifierCandidates, List.mem_cons, List.not_mem_nil, or_false] at candidate
  rcases candidate with rfl | rfl | rfl | rfl | rfl | rfl | rfl | rfl <;> simp [dotless]

/-! ### Outermost fields -/

/-- The outermost fields of both parts. -/
def outermostFields (resource : Resource) : List Field :=
  (resource.specFields.values ++ resource.statusFields.values).filter
    (fun field => field.path.length == 1)

theorem mem_values_append :
    field ∈ resource.specFields.values ++ resource.statusFields.values ↔
      ∃ root, field ∈ (resource.fields root).values := by
  rw [List.mem_append]
  constructor
  · rintro (isSpec | isStatus)
    · exact ⟨.spec, isSpec⟩
    · exact ⟨.status, isStatus⟩
  · rintro ⟨_ | _, listed⟩
    · exact Or.inl listed
    · exact Or.inr listed

theorem mem_outermostFields : field ∈ resource.outermostFields ↔
    (∃ root, field ∈ (resource.fields root).values) ∧ field.path.length = 1 := by
  rw [outermostFields, List.mem_filter, mem_values_append, beq_iff_eq]

section

variable (joined : ofDefinition definition settings normalizer = .ok resource)
include joined

/-- The paths of the fields of both parts end with their exported names. -/
theorem isFiled (root : FieldRoot) (listed : field ∈ (resource.fields root).values) :
    field.IsFiled := by
  cases root with
  | spec =>
      rcases List.mem_map.mp listed with ⟨entry, isEntry, rfl⟩
      exact (filed_specFields joined entry isEntry).2
  | status =>
      rcases registered_of_ofDefinition joined with
        ⟨_, observed, _, areObserved, _, statusFields⟩
      rw [fields, statusFields] at listed
      exact (Registration.origin_of_fieldsOf _ _ observed areObserved field
        (mem_of_mem_values_ofList listed)).isFiled

/-- The path of an outermost field is its exported name. -/
theorem text_of_outermost (isOutermost : field ∈ resource.outermostFields) :
    field.path.text = field.names.exported := by
  rcases mem_outermostFields.mp isOutermost with ⟨⟨root, listed⟩, short⟩
  rw [FieldPath.text, (isFiled joined root listed).segments short]
  rfl

/-- A field whose path has no dot is outermost. -/
theorem outermost_of_dotless {root : FieldRoot} (listed : field ∈ (resource.fields root).values)
    (dotless : '.' ∉ field.path.text.toList) : field ∈ resource.outermostFields :=
  mem_outermostFields.mpr ⟨⟨root, listed⟩,
    FieldPath.length_eq_one_of_dotless (segments_ne_nil joined root listed) dotless⟩

/-- The candidates that are paths of fields are names of outermost ones. -/
theorem exists_outermost_of_contains (root : FieldRoot) (dotless : '.' ∉ name.toList)
    (contained : (resource.fields root).contains name = true) :
    ∃ field ∈ resource.outermostFields, field.names.exported = name := by
  rcases List.mem_map.mp (OrderedMap.contains_iff.mp contained) with ⟨⟨name, field⟩, isEntry, rfl⟩
  have path : name = field.path.text := (filed_fields joined root _ isEntry).1
  rw [path] at dotless ⊢
  have isOutermost := outermost_of_dotless joined (List.mem_map_of_mem isEntry) dotless
  exact ⟨field, isOutermost, (text_of_outermost joined isOutermost).symm⟩

end

/-! ### Primary keys -/

theorem mem_primaryKeys : name ∈ resource.primaryKeys ↔
    ∃ root, ∃ field ∈ (resource.fields root).values,
      field.isPrimaryKey = true ∧ field.path.text = name := by
  simp only [primaryKeys, Text.mem_sortedBy, List.mem_map, List.mem_filter, mem_values_append]
  constructor
  · rintro ⟨field, ⟨⟨root, listed⟩, isKey⟩, text⟩
    exact ⟨root, field, listed, isKey, text⟩
  · rintro ⟨root, field, listed, isKey, text⟩
    exact ⟨field, ⟨⟨root, listed⟩, isKey⟩, text⟩

theorem identifiers_of_some_key (someKey : resource.primaryKeys ≠ []) :
    resource.identifiers = resource.primaryKeys := by
  rw [identifiers, if_neg (mt List.isEmpty_iff.mp someKey)]

theorem identifiers_of_no_key (noKey : resource.primaryKeys = []) :
    resource.identifiers = resource.identifierCandidates.filter (fun candidate =>
      resource.specFields.contains candidate || resource.statusFields.contains candidate) := by
  rw [identifiers, noKey]
  rfl

theorem nodup_texts (joined : ofDefinition definition settings normalizer = .ok resource)
    (root : FieldRoot) :
    ((resource.fields root).values.map (fun field => field.path.text)).Nodup := by
  have filed : (resource.fields root).values.map (fun field => field.path.text) =
      (resource.fields root).keys := by
    rw [OrderedMap.values, Entries.values, List.map_map]
    exact List.map_congr_left (fun entry isEntry => (filed_fields joined root entry isEntry).1.symm)
  rw [filed]
  exact (resource.fields root).nodup_keys

/-- A primary key is listed twice exactly if both parts have it. -/
theorem nodup_primaryKeys (joined : ofDefinition definition settings normalizer = .ok resource) :
    resource.primaryKeys.Nodup ↔
      ∀ desired ∈ resource.specFields.values, ∀ observed ∈ resource.statusFields.values,
        desired.isPrimaryKey = true → observed.isPrimaryKey = true →
          desired.path.text ≠ observed.path.text := by
  have ofPart (root : FieldRoot) : (((resource.fields root).values.filter
      Field.isPrimaryKey).map (fun field => field.path.text)).Nodup :=
    (nodup_texts joined root).sublist (List.filter_sublist.map _)
  rw [primaryKeys, (Text.sortedBy_perm _).nodup_iff, List.filter_append, List.map_append,
    List.nodup_append]
  constructor
  · rintro ⟨_, _, apart⟩ desired isDesired observed isObserved desiredKey observedKey
    exact apart _ (List.mem_map_of_mem (List.mem_filter.mpr ⟨isDesired, desiredKey⟩)) _
      (List.mem_map_of_mem (List.mem_filter.mpr ⟨isObserved, observedKey⟩))
  · intro apart
    refine ⟨ofPart .spec, ofPart .status, ?_⟩
    intro left isLeft right isRight
    rcases List.mem_map.mp isLeft with ⟨desired, isDesired, rfl⟩
    rcases List.mem_map.mp isRight with ⟨observed, isObserved, rfl⟩
    rcases List.mem_filter.mp isDesired with ⟨desiredListed, desiredKey⟩
    rcases List.mem_filter.mp isObserved with ⟨observedListed, observedKey⟩
    exact apart desired desiredListed observed observedListed desiredKey observedKey

/--
Whether the identifiers of a resource are distinct names of outermost fields, and if there are
outermost primary keys, exactly the names of these in ascending order.
-/
structure IdentifiesByFields (resource : Resource) : Prop where
  distinct : resource.identifiers.Nodup
  named : ∀ name ∈ resource.identifiers,
    ∃ field ∈ resource.outermostFields, field.names.exported = name
  primary : (∃ field ∈ resource.outermostFields, field.isPrimaryKey = true) →
    Text.Ascending id resource.identifiers ∧ ∀ name, name ∈ resource.identifiers ↔
      ∃ field ∈ resource.outermostFields, field.isPrimaryKey = true ∧ field.names.exported = name

/-- Whether all primary keys of a resource are outermost and none of them is in both parts. -/
structure SeparatesKeys (resource : Resource) : Prop where
  outermost : ∀ root, ∀ field ∈ (resource.fields root).values, field.isPrimaryKey = true →
    field.path.length = 1
  apart : ∀ desired ∈ resource.specFields.values, ∀ observed ∈ resource.statusFields.values,
    desired.isPrimaryKey = true → observed.isPrimaryKey = true → desired.path ≠ observed.path

/-- Without primary keys, the identifiers are distinct names of outermost fields. -/
theorem identifiesByFields_of_no_key
    (joined : ofDefinition definition settings normalizer = .ok resource)
    (named : resource.names.exported ≠ "") (dotless : '.' ∉ resource.names.exported.toList)
    (noKey : resource.primaryKeys = []) : resource.IdentifiesByFields := by
  have tried := identifiers_of_no_key noKey
  refine ⟨?_, ?_, ?_⟩
  · rw [tried]
    exact (nodup_identifierCandidates named).filter _
  · intro name listed
    rw [tried, List.mem_filter, Bool.or_eq_true] at listed
    rcases listed with ⟨candidate, inSpec | inStatus⟩
    · exact exists_outermost_of_contains joined .spec
        (dotless_of_candidate dotless candidate) inSpec
    · exact exists_outermost_of_contains joined .status
        (dotless_of_candidate dotless candidate) inStatus
  · rintro ⟨field, isOutermost, isKey⟩
    rcases (mem_outermostFields.mp isOutermost).1 with ⟨root, listed⟩
    have isListed := mem_primaryKeys.mpr ⟨root, field, listed, isKey, rfl⟩
    rw [noKey] at isListed
    exact absurd isListed List.not_mem_nil

/-- Primary keys that are set apart are the names of the outermost ones. -/
theorem SeparatesKeys.mem_primaryKeys_iff (separates : resource.SeparatesKeys)
    (joined : ofDefinition definition settings normalizer = .ok resource) :
    name ∈ resource.primaryKeys ↔ ∃ field ∈ resource.outermostFields,
      field.isPrimaryKey = true ∧ field.names.exported = name := by
  rw [mem_primaryKeys]
  constructor
  · rintro ⟨root, field, listed, isKey, text⟩
    have isOutermost := mem_outermostFields.mpr
      ⟨⟨root, listed⟩, separates.outermost root field listed isKey⟩
    exact ⟨field, isOutermost, isKey, (text_of_outermost joined isOutermost).symm.trans text⟩
  · rintro ⟨field, isOutermost, isKey, exported⟩
    rcases (mem_outermostFields.mp isOutermost).1 with ⟨root, listed⟩
    exact ⟨root, field, listed, isKey, (text_of_outermost joined isOutermost).trans exported⟩

/-- Primary keys that are set apart are distinct names of outermost fields. -/
theorem SeparatesKeys.identifiesByFields (separates : resource.SeparatesKeys)
    (joined : ofDefinition definition settings normalizer = .ok resource)
    (someKey : resource.primaryKeys ≠ []) : resource.IdentifiesByFields := by
  have isKey : ∀ name, name ∈ resource.identifiers ↔ ∃ field ∈ resource.outermostFields,
      field.isPrimaryKey = true ∧ field.names.exported = name := by
    intro name
    rw [identifiers_of_some_key someKey]
    exact separates.mem_primaryKeys_iff joined
  refine ⟨?_, ?_, ?_⟩
  · rw [identifiers_of_some_key someKey, nodup_primaryKeys joined]
    intro desired isDesired observed isObserved desiredKey observedKey same
    apply separates.apart desired isDesired observed isObserved desiredKey observedKey
    have ofDesired := (isFiled joined .spec isDesired).segments
      (separates.outermost .spec desired isDesired desiredKey)
    have ofObserved := (isFiled joined .status isObserved).segments
      (separates.outermost .status observed isObserved observedKey)
    rw [FieldPath.text, FieldPath.text, ofDesired, ofObserved, String.intercalate_singleton,
      String.intercalate_singleton] at same
    exact congrArg FieldPath.mk (by rw [ofDesired, ofObserved, same])
  · intro other listed
    rcases (isKey other).mp listed with ⟨field, isOutermost, _, exported⟩
    exact ⟨field, isOutermost, exported⟩
  · intro _
    refine ⟨?_, isKey⟩
    rw [identifiers_of_some_key someKey]
    exact Text.sortedBy_ascending _

/--
The identifiers of a resource are distinct names of outermost fields, of all outermost primary keys
if there are any, exactly if all primary keys are outermost and none of them is in both parts.
-/
theorem identifiesByFields_iff
    (joined : ofDefinition definition settings normalizer = .ok resource)
    (named : resource.names.exported ≠ "") (dotless : '.' ∉ resource.names.exported.toList)
    (segmented : ∀ field ∈ resource.outermostFields, '.' ∉ field.names.exported.toList) :
    resource.IdentifiesByFields ↔ resource.SeparatesKeys := by
  constructor
  · intro identifies
    refine ⟨?_, ?_⟩
    · intro root field listed isKey
      have isListed := mem_primaryKeys.mpr ⟨root, field, listed, isKey, rfl⟩
      have isIdentifier := isListed
      rw [← identifiers_of_some_key (List.ne_nil_of_mem isListed)] at isIdentifier
      rcases identifies.named _ isIdentifier with ⟨outermost, isOutermost, exported⟩
      have noDot := segmented outermost isOutermost
      rw [exported] at noDot
      exact (mem_outermostFields.mp (outermost_of_dotless joined listed noDot)).2
    · intro desired isDesired observed isObserved desiredKey observedKey same
      have isListed := mem_primaryKeys.mpr ⟨.spec, desired, isDesired, desiredKey, rfl⟩
      have distinct := identifies.distinct
      rw [identifiers_of_some_key (List.ne_nil_of_mem isListed),
        nodup_primaryKeys joined] at distinct
      apply distinct desired isDesired observed isObserved desiredKey observedKey
      rw [same]
  · intro separates
    by_cases noKey : resource.primaryKeys = []
    · exact identifiesByFields_of_no_key joined named dotless noKey
    · exact separates.identifiesByFields joined noKey

/-- A resource with an identifier in both parts and a token in its configuration. -/
def sharedKeys : ResourceDefinition where
  name := "Queue"
  spec := .struct "QueueSpec" [
    ("Config", .struct "Config" [("Token", Shape.scalarOf .string)]),
    ("Id", Shape.scalarOf .string)]
  status := some (.struct "QueueStatus" [("Id", Shape.scalarOf .string)])
  operations := ∅

/-- Settings that make the identifier and the token primary keys. -/
def sharedKeysSettings : Settings where
  resources := OrderedMap.ofList [("Queue", {
    fields := OrderedMap.ofList [
      ("Id", { isPrimaryKey := true }), ("Config.Token", { isPrimaryKey := true })] })]

/-- An identifier in both parts is listed twice, next to a name that is no field. -/
theorem identifiesByFields_iff_shared :
    ∃ resource, ofDefinition sharedKeys sharedKeysSettings .default = .ok resource ∧
      resource.names.exported ≠ "" ∧ '.' ∉ resource.names.exported.toList ∧
      (∀ field ∈ resource.outermostFields, '.' ∉ field.names.exported.toList) ∧
      resource.identifiers = ["Config.Token", "Id", "Id"] ∧ ¬resource.IdentifiesByFields := by
  have facts : ∃ resource ∈ (ofDefinition sharedKeys sharedKeysSettings .default).toOption,
      resource.names.exported ≠ "" ∧ '.' ∉ resource.names.exported.toList ∧
      (∀ field ∈ resource.outermostFields, '.' ∉ field.names.exported.toList) ∧
      resource.identifiers = ["Config.Token", "Id", "Id"] ∧
      ∃ field ∈ resource.specFields.values, field.isPrimaryKey = true ∧ field.path.length = 2 := by
    decide +kernel
  rcases facts with ⟨resource, made, named, dotless, segmented, listed, field, isField, isKey, deep⟩
  have joined := Outcome.of_mem_toOption made
  refine ⟨resource, joined, named, dotless, segmented, listed, ?_⟩
  rw [identifiesByFields_iff joined named dotless segmented]
  intro separates
  have short := separates.outermost .spec field isField isKey
  omega

end Resource

end Reconcile
