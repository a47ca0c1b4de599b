import Mathlib
import Reconcile.Proofs.Identifiers.Distinct

/-!
# Identifiers of resources and of shapes

Candidates are looked for among the fields of a resource and among the members of an operation's
shape. Fields have normalized names and members have not. So where both have the same members and
renames, the shape has no identifiers but those of the resource, and it has all of them exactly if
each identifier is the name of a member as it is (`Resource.names_shapeIdentifiers_iff`).
-/

namespace Reconcile

namespace Text

theorem capitalize_append_of_capital {ending : String} (capital : capitalize ending = ending)
    (name : String) : capitalize (capitalize name ++ ending) = capitalize name ++ ending := by
  unfold capitalize
  cases letters : name.toList with
  | nil =>
      rw [String.toList_eq_nil_iff] at letters
      subst letters
      simpa [capitalize] using capital
  | cons first rest => simp [← String.toList_inj, Char.toUpper_toUpper_eq_toUpper]

end Text

namespace Resource

variable {definition : ResourceDefinition} {settings : Settings} {normalizer : Normalizer}
  {resource : Resource} {shape : Shape} {operation candidate : String}

theorem names_of_ofDefinition
    (joined : ofDefinition definition settings normalizer = .ok resource) :
    resource.names = normalizer definition.name := by
  rcases Outcome.of_bind_eq_ok joined with ⟨specFields, _, joined⟩
  dsimp only at joined
  split at joined
  · rcases Outcome.of_bind_eq_ok joined with ⟨statusFields, _, made⟩
    cases made
    rfl
  · cases joined
    rfl

/-- The default normalizer leaves candidates as they are. -/
theorem exported_of_candidate (joined : ofDefinition definition settings .default = .ok resource)
    (isCandidate : candidate ∈ resource.identifierCandidates) :
    (Normalizer.default candidate).exported = candidate := by
  have capitals : ∀ ending ∈ candidateEndings, Text.capitalize ending = ending := by decide
  have exported : resource.names.exported = Text.capitalize definition.name := by
    rw [names_of_ofDefinition joined]
    rfl
  change Text.capitalize candidate = candidate
  simp only [identifierCandidates, exported, List.mem_cons, List.not_mem_nil,
    or_false] at isCandidate
  rcases isCandidate with rfl | rfl | rfl | rfl | rfl | rfl | rfl | rfl
  all_goals first
    | exact capitals _ (by decide)
    | exact Text.capitalize_append_of_capital (capitals _ (by decide)) _

theorem identifier?_eq (members : List ShapeIdentifier) (candidate : String) :
    (members.find? (fun member => member.name == candidate)).map ShapeIdentifier.name =
      if members.any (fun member => member.name == candidate) then some candidate else none := by
  rw [← List.isSome_find?]
  cases found : members.find? (fun member => member.name == candidate) with
  | none => rfl
  | some member =>
      have named : member.name = candidate := by simpa using List.find?_some found
      simp [named]

/-- A shape has the candidates as identifiers that its members are named like. -/
theorem names_shapeIdentifiers (resource : Resource) (shape : Shape) (operation : String) :
    (resource.shapeIdentifiers shape operation).map ShapeIdentifier.name =
      resource.identifierCandidates.filter (fun candidate =>
        (resource.renamedMembers shape operation).any
          (fun member => member.name == candidate)) := by
  rw [shapeIdentifiers, List.map_filterMap, ← List.filterMap_eq_filter]
  congr 1
  funext candidate
  exact identifier?_eq _ candidate

/-! ### Fields and members with the same names -/

/-- The name of a member of the input of an operation after the renames of that. -/
def inputName (resource : Resource) (operation member : String) : String :=
  (((resource.settings.inputRenames? operation).getD ∅).get? member).getD member

theorem exists_renamedMembers (holds : String → Prop) :
    (∃ member ∈ resource.renamedMembers shape operation, holds member.name) ↔
      ∃ member ∈ (shape.members?.getD []).keys, holds (resource.inputName operation member) := by
  simp only [renamedMembers, List.mem_map]
  constructor
  · rintro ⟨_, ⟨member, listed, rfl⟩, named⟩
    exact ⟨member, listed, named⟩
  · rintro ⟨member, listed, named⟩
    exact ⟨_, ⟨member, listed, rfl⟩, named⟩

section

variable (joined : ofDefinition definition settings normalizer = .ok resource)
include joined

theorem statusFields_of_no_status (noStatus : definition.status = none) :
    resource.statusFields = ∅ := by
  rcases registered_of_ofDefinition joined with ⟨_, observed, _, areObserved, _, statusFields⟩
  rw [ResourceDefinition.observed, noStatus] at areObserved
  cases areObserved
  exact statusFields

/-- If no other renames are set, members of desired state are renamed like those of the input. -/
theorem renamed_eq_inputName (onlyRenames : resource.settings.fieldRenames =
      ((resource.settings.inputRenames? operation).getD ∅).entries) (member : String) :
    (registrationOf definition settings normalizer).renamed .empty member =
      resource.inputName operation member := by
  have sameRenames : (registrationOf definition settings normalizer).renames.entries =
      ((resource.settings.inputRenames? operation).getD ∅).entries := by
    rw [registrationOf, ← settings_of_ofDefinition joined, onlyRenames]
    exact OrderedMap.entries_ofList (OrderedMap.nodup_keys _)
  have outermost : FieldPath.empty.isEmpty = true := rfl
  rw [Registration.renamed, if_pos outermost, inputName, OrderedMap.get?, OrderedMap.get?,
    sameRenames]

/-- The resource has the fields of candidates that members of the shape are exported as. -/
theorem contains_candidate_iff (noStatus : definition.status = none)
    (noReferences : ∀ field ∈ resource.specFields.values, field.isReference = false)
    (onlyRenames : resource.settings.fieldRenames =
      ((resource.settings.inputRenames? operation).getD ∅).entries)
    (sameMembers : ∀ member, member ∈ (shape.members?.getD []).keys ↔
      member ∈ definition.spec.membersBelow.map Prod.fst) (dotless : '.' ∉ candidate.toList) :
    (resource.specFields.contains candidate || resource.statusFields.contains candidate) = true ↔
      ∃ member ∈ resource.renamedMembers shape operation,
        (normalizer member.name).exported = candidate := by
  have unobserved : resource.statusFields.contains candidate = false := by
    rw [statusFields_of_no_status joined noStatus]
    rfl
  rw [unobserved, Bool.or_false, OrderedMap.contains_iff,
    mem_keys_iff_of_dotless joined noReferences dotless,
    exists_renamedMembers (fun name => (normalizer name).exported = candidate)]
  simp only [renamed_eq_inputName joined onlyRenames, sameMembers, List.mem_map]
  constructor
  · rintro ⟨member, listed, exported⟩
    exact ⟨member.1, ⟨member, listed, rfl⟩, exported⟩
  · rintro ⟨_, ⟨member, listed, rfl⟩, exported⟩
    exact ⟨member, listed, exported⟩

end

/--
Whether each candidate that a member of an operation's shape is exported as is the name of such a
member.
-/
def ExposesNames (resource : Resource) (shape : Shape) (operation : String) : Prop :=
  ∀ member ∈ resource.renamedMembers shape operation,
    (Normalizer.default member.name).exported ∈ resource.identifierCandidates →
      ∃ other ∈ resource.renamedMembers shape operation,
        other.name = (Normalizer.default member.name).exported

section

variable {candidates : List String} {narrow wide : String → Bool}
  (implied : ∀ candidate ∈ candidates, narrow candidate = true → wide candidate = true)
include implied

/-- What passes a narrower condition is left of what passes a wider one. -/
theorem filter_sublist_filter : (candidates.filter narrow).Sublist (candidates.filter wide) := by
  have both : candidates.filter narrow = (candidates.filter wide).filter narrow := by
    rw [List.filter_filter]
    refine List.filter_congr (fun candidate listed => ?_)
    cases passes : narrow candidate with
    | false => rfl
    | true => rw [implied candidate listed passes]; rfl
  rw [both]
  exact List.filter_sublist

/-- All that passes a wider condition is left exactly if it passes the narrower one too. -/
theorem filter_eq_filter_iff : candidates.filter narrow = candidates.filter wide ↔
    ∀ candidate ∈ candidates, wide candidate = true → narrow candidate = true := by
  constructor
  · intro same candidate listed passes
    have kept := List.mem_filter.mpr ⟨listed, passes⟩
    rw [← same] at kept
    exact (List.mem_filter.mp kept).2
  · intro agree
    refine List.filter_congr (fun candidate listed => ?_)
    exact Bool.eq_iff_iff.mpr ⟨implied candidate listed, agree candidate listed⟩

end

/--
Let the input of an operation have the members of desired state, and let its renames be the only
ones. Then its identifiers are among those of the resource, and they are all of them exactly if the
members are named like the fields that could be identifiers.
-/
theorem names_shapeIdentifiers_iff
    (joined : ofDefinition definition settings .default = .ok resource)
    (dotless : '.' ∉ resource.names.exported.toList) (noStatus : definition.status = none)
    (noKeys : resource.primaryKeys = [])
    (noReferences : ∀ field ∈ resource.specFields.values, field.isReference = false)
    (onlyRenames : resource.settings.fieldRenames =
      ((resource.settings.inputRenames? operation).getD ∅).entries)
    (sameMembers : ∀ member, member ∈ (shape.members?.getD []).keys ↔
      member ∈ definition.spec.membersBelow.map Prod.fst) :
    ((resource.shapeIdentifiers shape operation).map ShapeIdentifier.name).Sublist
        resource.identifiers ∧
      ((resource.shapeIdentifiers shape operation).map ShapeIdentifier.name =
        resource.identifiers ↔ resource.ExposesNames shape operation) := by
  have isMember : ∀ candidate, ((resource.renamedMembers shape operation).any
      (fun member => member.name == candidate)) = true ↔
        ∃ member ∈ resource.renamedMembers shape operation, member.name = candidate := by
    simp [List.any_eq_true]
  have isField (candidate) (listed : candidate ∈ resource.identifierCandidates) :=
    contains_candidate_iff joined noStatus noReferences onlyRenames sameMembers
      (dotless_of_candidate dotless listed)
  have implied : ∀ candidate ∈ resource.identifierCandidates,
      ((resource.renamedMembers shape operation).any
        (fun member => member.name == candidate)) = true →
        (resource.specFields.contains candidate ||
          resource.statusFields.contains candidate) = true := by
    intro candidate listed named
    rcases (isMember candidate).mp named with ⟨member, inMembers, rfl⟩
    exact (isField _ listed).mpr ⟨member, inMembers, exported_of_candidate joined listed⟩
  rw [names_shapeIdentifiers, identifiers_of_no_key noKeys]
  refine ⟨filter_sublist_filter implied, (filter_eq_filter_iff implied).trans ?_⟩
  constructor
  · intro agree member listed isCandidate
    exact (isMember _).mp (agree _ isCandidate ((isField _ isCandidate).mpr ⟨member, listed, rfl⟩))
  · intro exposes candidate listed contained
    rcases (isField candidate listed).mp contained with ⟨member, inMembers, rfl⟩
    exact (isMember _).mpr (exposes member inMembers listed)

/-- The input of the operation that creates a queue, and its desired state, but for the name. -/
def lowerIdMembers : List (String × Shape) := [("id", Shape.scalarOf .string)]

/-- Desired state with a lower-case identifier, which an operation takes too. -/
def lowerId : ResourceDefinition where
  name := "Queue"
  spec := .struct "QueueSpec" lowerIdMembers
  status := none
  operations := OrderedMap.ofList [
    ("CreateQueue", { input := some (.struct "CreateQueueInput" lowerIdMembers) })]

/-- A lower-case identifier identifies the resource, but no member of the operation does. -/
theorem names_shapeIdentifiers_iff_lower :
    ∃ resource, ofDefinition lowerId {} .default = .ok resource ∧
      resource.identifiers = ["Id"] ∧
      resource.shapeIdentifiers (.struct "CreateQueueInput" lowerIdMembers) "CreateQueue" = [] ∧
      ¬resource.ExposesNames (.struct "CreateQueueInput" lowerIdMembers) "CreateQueue" := by
  have facts : ∃ resource ∈ (ofDefinition lowerId {} .default).toOption,
      '.' ∉ resource.names.exported.toList ∧ resource.primaryKeys = [] ∧
      (∀ field ∈ resource.specFields.values, field.isReference = false) ∧
      resource.settings.fieldRenames =
        ((resource.settings.inputRenames? "CreateQueue").getD ∅).entries ∧
      resource.identifiers = ["Id"] ∧
      resource.shapeIdentifiers (.struct "CreateQueueInput" lowerIdMembers) "CreateQueue" = [] := by
    decide +kernel
  rcases facts with ⟨resource, made, dotless, noKeys, noReferences, onlyRenames, listed, unlisted⟩
  have joined := Outcome.of_mem_toOption made
  refine ⟨resource, joined, listed, unlisted, ?_⟩
  have sameMembers : ∀ member,
      member ∈ ((Shape.struct "CreateQueueInput" lowerIdMembers).members?.getD []).keys ↔
        member ∈ lowerId.spec.membersBelow.map Prod.fst :=
    fun _ => Iff.rfl
  have agree := (names_shapeIdentifiers_iff joined dotless rfl noKeys noReferences onlyRenames
    sameMembers).2
  rw [← agree, unlisted, listed]
  decide

end Resource

end Reconcile
