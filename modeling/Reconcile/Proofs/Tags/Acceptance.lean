import Reconcile.Proofs.Resource.Ancestors
import Reconcile.Proofs.Tags.Conversion

/-!
# Accepted tags

Tags that are not ignored are converted if their field exists and its shape can hold tags
(`Tags.Accepts`). Otherwise there is one reason to refuse them (`Tags.Refuses`), and it is the same
for both directions. A mapping must be one of texts, but nothing is asked of the members of a list
of structures: a list is accepted although its conversion does not fit a mapping of texts exactly if
one of the two members is no text (`Tags.converted_iff`).
-/

namespace Reconcile

namespace Shape

/-- Whether the values of a shape are texts. -/
def IsText (shape : Shape) : Prop :=
  ∃ name, shape = .scalar name .string

/-- Only fields of texts have the type whose values are the keys and values of canonical tags. -/
theorem goType_eq_iff {shape : Shape} : shape.goType = "*string" ↔ shape.IsText := by
  constructor
  · intro same
    have letters := congrArg String.toList same
    cases shape with
    | scalar name kind =>
        have isString : kind = .string := by
          rw [goType] at same
          revert same
          cases kind <;> decide
        exact ⟨name, by rw [isString]⟩
    | struct name members => simp [goType] at letters
    | sequence name element => simp [goType] at letters
    | mapping name key value => simp [goType] at letters
  · rintro ⟨name, rfl⟩
    rfl

/--
Whether values of a shape can be tags of texts: structures in a list with a text in each of the two
members of a tag, or texts in a mapping.
-/
def HoldsTextTags (shape : Shape) (keyName valueName : String) : Prop :=
  (∃ name element key value, shape = .sequence name element ∧
    element.member? keyName = some key ∧ key.2.IsText ∧
      element.member? valueName = some value ∧ value.2.IsText) ∨
    ∃ name text, shape = .mapping name .string (.scalar text .string)

end Shape

namespace Tags

/-- Whether a resource has a tag field whose shape can hold tags. -/
def Accepts (resource : Resource) : Prop :=
  ∃ field, resource.field? .spec resource.settings.tags.path = some field ∧
    field.shape.HoldsTags resource.settings.tags.keyName resource.settings.tags.valueName

/-- Whether a resource has a tag field whose shape can hold tags of texts. -/
def AcceptsTexts (resource : Resource) : Prop :=
  ∃ field, resource.field? .spec resource.settings.tags.path = some field ∧
    field.shape.HoldsTextTags resource.settings.tags.keyName resource.settings.tags.valueName

/-- Whether an error says why the tags of a resource cannot be converted. -/
inductive Refuses (resource : Resource) : TagError → Prop
  | unresolved {path : String} (given : resource.settings.tags.givenPath = some path)
      (absent : resource.field? .spec path = none) :
      Refuses resource (.tagField (.unknownTagField resource.names.wire path))
  | missing (given : resource.settings.tags.givenPath = none)
      (absent : resource.field? .spec "Tags" = none) :
      Refuses resource (.missing resource.names.wire)
  | unsupported {field : Field}
      (found : resource.field? .spec resource.settings.tags.path = some field)
      (holdsNot : ¬field.shape.HoldsTags resource.settings.tags.keyName
        resource.settings.tags.valueName) :
      Refuses resource (.unsupportedShape field.path.text field.shape.name
        resource.settings.tags.keyName resource.settings.tags.valueName)

variable {resource : Resource} {field : Field} {error : TagError}
  {code : TagRepresentation → List Code} {level : Nat}

theorem accepts_or_refuses (resource : Resource) :
    Accepts resource ∨ ∃ error, Refuses resource error := by
  cases found : resource.field? .spec resource.settings.tags.path with
  | some field =>
      by_cases holds : field.shape.HoldsTags resource.settings.tags.keyName
        resource.settings.tags.valueName
      · exact Or.inl ⟨field, found, holds⟩
      · exact Or.inr ⟨_, .unsupported found holds⟩
  | none =>
      cases given : resource.settings.tags.givenPath with
      | some path =>
          rw [TagSettings.path, given, Option.getD_some] at found
          exact Or.inr ⟨_, .unresolved given found⟩
      | none =>
          rw [TagSettings.path, given, Option.getD_none] at found
          exact Or.inr ⟨_, .missing given found⟩

section

variable (handled : resource.settings.tags.ignore = false)
include handled

theorem tagField_of_found
    (found : resource.field? .spec resource.settings.tags.path = some field) :
    resource.tagField = .ok (some field) := by
  simp [Resource.tagField, handled, found]

theorem renderFor_of_accepts (accepts : Accepts resource) :
    ∃ text, renderFor resource level code = .ok text := by
  rcases accepts with ⟨field, found, holds⟩
  have written : ∃ text, renderFor resource level code = .ok text ∧ text ≠ "" :=
    renderFor_of_holdsTags (tagField_of_found handled found) holds
  rcases written with ⟨text, written, _⟩
  exact ⟨text, written⟩

theorem renderFor_of_refuses (refuses : Refuses resource error) :
    renderFor resource level code = .error error := by
  cases refuses with
  | unresolved given absent =>
      simp [renderFor, TagRepresentation.ofResource, Resource.tagField, handled, TagSettings.path,
        given, absent, bind, Except.bind]
  | missing given absent =>
      simp [renderFor, TagRepresentation.ofResource, Resource.tagField, handled, TagSettings.path,
        given, absent, bind, Except.bind]
  | unsupported found holdsNot =>
      exact renderFor_of_not_holdsTags (tagField_of_found handled found) holdsNot

/-- Code for tags is written exactly if they are accepted. -/
theorem exists_renderFor_eq_ok :
    (∃ text, renderFor resource level code = .ok text) ↔ Accepts resource := by
  constructor
  · rintro ⟨text, written⟩
    rcases accepts_or_refuses resource with accepts | ⟨error, refuses⟩
    · exact accepts
    · rw [renderFor_of_refuses handled refuses] at written
      cases written
  · exact renderFor_of_accepts handled

/-- The error is the reason for which tags are refused. -/
theorem renderFor_eq_error :
    renderFor resource level code = .error error ↔ Refuses resource error := by
  constructor
  · intro failed
    rcases accepts_or_refuses resource with accepts | ⟨other, refuses⟩
    · have converted : ∃ text, renderFor resource level code = .ok text :=
        renderFor_of_accepts handled accepts
      rcases converted with ⟨text, written⟩
      rw [written] at failed
      cases failed
    · rw [renderFor_of_refuses handled refuses] at failed
      cases failed
      exact refuses
  · exact renderFor_of_refuses handled

end

/-- Whether the conversion of a list of tags fits a mapping of texts: both its members are texts. -/
def ListFits (resource : Resource) : Prop :=
  ∀ field name element key value,
    resource.field? .spec resource.settings.tags.path = some field →
      field.shape = .sequence name element →
        element.member? resource.settings.tags.keyName = some key →
          element.member? resource.settings.tags.valueName = some value →
            key.2.goType = "*string" ∧ value.2.goType = "*string"

theorem accepts_of_acceptsTexts (accepts : AcceptsTexts resource) : Accepts resource := by
  rcases accepts with ⟨field, found, isList | isMapping⟩
  · rcases isList with ⟨name, element, key, value, shape, hasKey, _, hasValue, _⟩
    exact ⟨field, found, Or.inl ⟨name, element, shape, by simp [hasKey], by simp [hasValue]⟩⟩
  · exact ⟨field, found, Or.inr isMapping⟩

/-- Accepted tags are tags of texts exactly if the conversion of a list fits. -/
theorem accepts_iff_texts : (Accepts resource ↔ AcceptsTexts resource) ↔ ListFits resource := by
  constructor
  · intro agree field name element key value found shape hasKey hasValue
    have accepts : Accepts resource :=
      ⟨field, found, Or.inl ⟨name, element, shape, by simp [hasKey], by simp [hasValue]⟩⟩
    rcases agree.mp accepts with ⟨other, foundOther, isList | ⟨_, _, isMapping⟩⟩
    · cases found.symm.trans foundOther
      rcases isList with ⟨_, _, otherKey, otherValue, isList, hasOther, keyText, hasOtherValue,
        valueText⟩
      cases shape.symm.trans isList
      cases hasKey.symm.trans hasOther
      cases hasValue.symm.trans hasOtherValue
      exact ⟨Shape.goType_eq_iff.mpr keyText, Shape.goType_eq_iff.mpr valueText⟩
    · cases found.symm.trans foundOther
      cases shape.symm.trans isMapping
  · intro fits
    refine ⟨?_, accepts_of_acceptsTexts⟩
    rintro ⟨field, found, ⟨name, element, shape, hasKey, hasValue⟩ | isMapping⟩
    · rcases Option.isSome_iff_exists.mp hasKey with ⟨key, isKey⟩
      rcases Option.isSome_iff_exists.mp hasValue with ⟨value, isValue⟩
      rcases fits field name element key value found shape isKey isValue with ⟨keyText, valueText⟩
      exact ⟨field, found, Or.inl ⟨name, element, key, value, shape, isKey,
        Shape.goType_eq_iff.mp keyText, isValue, Shape.goType_eq_iff.mp valueText⟩⟩
    · exact ⟨field, found, Or.inr isMapping⟩

/--
Tags that are not ignored are converted exactly if they are accepted, and for one of three reasons
not, in both directions alike. So exactly the tags of texts are converted if and only if no list is
accepted of which a member is no text.
-/
theorem converted_iff (resource : Resource) (handled : resource.settings.tags.ignore = false)
    (source target order : String) (level : Nat) :
    ((∃ text, toCanonical resource source target order level = .ok text) ↔ Accepts resource) ∧
    (∀ error, toCanonical resource source target order level = .error error ↔
      Refuses resource error) ∧
    ((∃ text, ofCanonical resource source order target level = .ok text) ↔ Accepts resource) ∧
    (∀ error, ofCanonical resource source order target level = .error error ↔
      Refuses resource error) ∧
    (((∃ text, toCanonical resource source target order level = .ok text) ↔
      AcceptsTexts resource) ↔ ListFits resource) := by
  have written : (∃ text, toCanonical resource source target order level = .ok text) ↔
      Accepts resource := exists_renderFor_eq_ok handled
  refine ⟨written, fun _ => renderFor_eq_error handled, exists_renderFor_eq_ok handled,
    fun _ => renderFor_eq_error handled, ?_⟩
  rw [written]
  exact accepts_iff_texts

/-- Desired state with a list of structures whose key is a number. -/
def countedTags : ResourceDefinition where
  name := "Queue"
  spec := .struct "QueueSpec" [
    ("Tags", .sequence "TagList" (.struct "Tag" [
      ("Key", Shape.scalarOf .integer), ("Value", Shape.scalarOf .string)]))]
  status := none
  operations := ∅

/-- Tags whose keys are numbers are converted like texts. -/
theorem converted_iff_counted :
    ∃ resource, Resource.ofDefinition countedTags {} .default = .ok resource ∧
      resource.settings.tags.ignore = false ∧
      (∃ text, toCanonical resource "tags" "result" "keyOrder" 1 = .ok text) ∧
      (∃ text, ofCanonical resource "tags" "keyOrder" "result" 1 = .ok text) ∧
      ¬AcceptsTexts resource ∧ ¬ListFits resource := by
  have facts : ∃ resource ∈ (Resource.ofDefinition countedTags {} .default).toOption,
      resource.settings.tags.ignore = false ∧ resource.settings.tags.keyName = "Key" ∧
        ∃ field ∈ resource.field? .spec resource.settings.tags.path,
          field.path.length = 1 ∧ field.isReference = false ∧
            field.shape.HoldsTags resource.settings.tags.keyName
              resource.settings.tags.valueName := by
    decide +kernel
  rcases facts with ⟨resource, made, handled, keyName, field, isField, outermost, noReference,
    holds⟩
  have joined := Outcome.of_mem_toOption made
  have found := Option.mem_def.mp isField
  rcases converted_iff resource handled "tags" "result" "keyOrder" 1 with
    ⟨written, _, restored, _, agree⟩
  have accepts : Accepts resource := ⟨field, found, holds⟩
  have refuted : ¬AcceptsTexts resource := by
    have isTop := Resource.mem_topLevelFields.mpr ⟨Resource.mem_of_field? found, outermost⟩
    rcases Resource.exists_member_of_outermost joined isTop noReference with
      ⟨_, _, spec, member, listed, shape⟩
    cases spec
    rw [List.mem_singleton] at listed
    subst listed
    rintro ⟨other, foundOther, isList | ⟨_, _, isMapping⟩⟩
    · cases found.symm.trans foundOther
      rcases isList with ⟨_, _, key, _, isList, hasKey, isText, _⟩
      cases shape.symm.trans isList
      rw [keyName] at hasKey
      cases hasKey
      rcases isText with ⟨_, isText⟩
      cases isText
    · cases found.symm.trans foundOther
      cases shape.symm.trans isMapping
  refine ⟨resource, joined, handled, written.mpr accepts, restored.mpr accepts, refuted, ?_⟩
  intro fits
  exact refuted ((agree.mpr fits).mp (written.mpr accepts))

end Tags

end Reconcile
