import Reconcile.Proofs.Compare.Asking
import Reconcile.Proofs.Compare.TagCalls
import Reconcile.Tags.Converter

/-!
# Comparisons and conversions of tags

Comparisons of tags call a function that conversion code defines. A comparison calls it only if
the resource has a tag field, but looks at no shape, while conversion code is written for two
kinds of shapes only. So a comparison has its conversions exactly if the shape of the tag field
can hold tags: structures with a key and a value in a list, or texts in a mapping
(`Tags.conversions_of_comparison`).
-/

namespace Reconcile

theorem Code.renderBehindBlank_ne_empty (codes : List Code) (level : Nat) :
    renderBehindBlank codes level ≠ "" := by
  have letters := Page.toList_write Page.empty (Line.blank :: linesOf codes level)
  rw [← renderBehindBlank_eq] at letters
  intro same
  simp [same, Page.empty] at letters

/--
Whether values of a shape can be tags: structures in a list that have both members of a tag, or
texts in a mapping.
-/
def Shape.HoldsTags (shape : Shape) (keyName valueName : String) : Prop :=
  (∃ name element, shape = .sequence name element ∧ (element.member? keyName).isSome = true ∧
    (element.member? valueName).isSome = true) ∨
      ∃ name text, shape = .mapping name .string (.scalar text .string)

theorem TagRepresentation.isSome_ofShape? {shape : Shape} {keyName valueName : String} :
    (ofShape? shape keyName valueName).isSome = true ↔ shape.HoldsTags keyName valueName := by
  unfold ofShape? Shape.HoldsTags
  split
  · rename_i name element
    cases key : element.member? keyName <;> cases value : element.member? valueName
    all_goals
      constructor
      · intro found
        refine Or.inl ⟨name, element, rfl, ?_⟩
        simp_all
      · rintro (⟨_, _, same, hasKey, hasValue⟩ | ⟨_, _, same⟩)
        · cases same
          simp_all
        · cases same
  · simp
  · rename_i noSequence noMapping
    constructor
    · simp
    · rintro (⟨name, element, same, _⟩ | ⟨name, text, same⟩)
      · exact absurd same (noSequence name element)
      · exact absurd same (noMapping name text)

instance (shape : Shape) (keyName valueName : String) :
    Decidable (shape.HoldsTags keyName valueName) :=
  decidable_of_iff _ TagRepresentation.isSome_ofShape?

namespace Tags

variable {resource : Resource} {field : Field} {code : TagRepresentation → List Code} {level : Nat}

theorem not_ignore_of_found (found : resource.tagField = .ok (some field)) :
    resource.settings.tags.ignore = false := by
  cases ignored : resource.settings.tags.ignore with
  | false => rfl
  | true => simp [Resource.tagField, ignored] at found

/-- Tags of a shape that can hold them are converted. -/
theorem renderFor_of_holdsTags (found : resource.tagField = .ok (some field))
    (holds : field.shape.HoldsTags resource.settings.tags.keyName
      resource.settings.tags.valueName) :
    ∃ text, renderFor resource level code = .ok text ∧ text ≠ "" := by
  rw [← TagRepresentation.isSome_ofShape?, Option.isSome_iff_exists] at holds
  rcases holds with ⟨representation, represents⟩
  refine ⟨_, ?_, Code.renderBehindBlank_ne_empty (code representation) level⟩
  simp [renderFor, TagRepresentation.ofResource, not_ignore_of_found found, found, represents,
    bind, Except.bind, pure, Except.pure]

/-- The conversion of other tags fails with the shape of their field. -/
theorem renderFor_of_not_holdsTags (found : resource.tagField = .ok (some field))
    (holdsNot : ¬field.shape.HoldsTags resource.settings.tags.keyName
      resource.settings.tags.valueName) :
    renderFor resource level code = .error (.unsupportedShape field.path.text field.shape.name
      resource.settings.tags.keyName resource.settings.tags.valueName) := by
  rw [← TagRepresentation.isSome_ofShape?, Option.not_isSome_iff_eq_none] at holdsNot
  simp [renderFor, TagRepresentation.ofResource, not_ignore_of_found found, found, holdsNot,
    bind, Except.bind]

/-- Whether the text of code calls the function that converts tags. -/
def CallsConversion (text : String) : Prop :=
  ∃ line ∈ Line.readAll text, Line.ConvertsTags line.text

instance (text : String) : Decidable (CallsConversion text) :=
  inferInstanceAs (Decidable (∃ line ∈ Line.readAll text, Line.ConvertsTags line.text))

section

variable {normalizer : Normalizer} {first second : String}

/-- A comparison calls the conversion of tags if it compares some value as tags, and only then. -/
theorem callsConversion_iff {root : Site} {action : Site → String} {plain : Shape → Prop}
    {checks : List Check} (flat : Check.IsFlat action) (sound : Check.SoundOf root plain [] checks)
    (wholeRoot : root.IsWhole) (words : ∀ shape, plain shape → Text.IsWord shape.name)
    (plainActions : ∀ blocks site, Site.Reached root blocks site →
      ∀ level, Line.IsPlain ⟨level, action site⟩)
    (silent : ∀ blocks site, Site.Reached root blocks site → ¬Line.ConvertsTags (action site)) :
    CallsConversion (Code.renderBehindBlank (Check.codeOf action checks) level) ↔
      Check.tagSitesOf checks ≠ [] := by
  have blankSilent : ¬Line.ConvertsTags Line.blank.text := by decide
  rw [CallsConversion, Check.readAll_body flat sound wholeRoot words level plainActions]
  simp only [List.mem_cons, exists_eq_or_imp, blankSilent, false_or]
  constructor
  · rintro ⟨line, listed, called⟩
    exact Check.tagSitesOf_ne_nil wholeRoot words silent checks level sound line listed called
  · intro nonempty
    rcases List.exists_mem_of_ne_nil _ nonempty with ⟨tagged, isTag⟩
    exact Check.exists_convertsTags_of wholeRoot checks level sound isTag

theorem not_convertsTags_delta {root site : Site} {blocks : List String}
    (reached : Site.Reached root blocks site) (wholeRoot : root.IsWhole)
    (rootWords : ∀ segment ∈ root.path.segments, Text.IsWord segment) :
    ¬Line.ConvertsTags (Delta.action site) := by
  rw [Line.ConvertsTags, Line.calls,
    Delta.ofLine_action (reached.isWhole wholeRoot) (reached.pathWords rootWords)]
  simp [Line.filter_close]

theorem not_convertsTags_equality (site : Site) : ¬Line.ConvertsTags (Equality.action site) := by
  unfold Equality.action
  decide

/-- A tag field is found by each comparison that compares a value as tags. -/
theorem exists_tagField {strategy : Strategy} {tag : Option Field}
    (observes : strategy.Observes resource normalizer tag) (passes : strategy.PassesTags)
    (nonempty : Check.tagSitesOf (strategy.resource resource first second) ≠ []) :
    ∃ field, tag = some field := by
  rcases List.exists_mem_of_ne_nil _ nonempty with ⟨tagged, isTag⟩
  have holdsTags := Strategy.isTagField_of_mem_resource passes isTag
  rw [observes.isTagField] at holdsTags
  cases tag with
  | none => simp at holdsTags
  | some field => exact ⟨field, rfl⟩

theorem callsConversion_delta {fits : Shape → Prop} (inherited : Shape.Inherited normalizer fits)
    (named : resource.Named Text.IsWord fits) (firstDotted : Text.IsDotted first)
    (secondDotted : Text.IsDotted second) {text : String}
    (written : Delta.compareResource resource normalizer first second level = .ok text) :
    ∃ tag, resource.tagField = .ok tag ∧ (CallsConversion text ↔
      Check.tagSitesOf ((Delta.strategy resource normalizer (tag.map Field.path)).resource
        resource first second) ≠ []) := by
  rcases Delta.compareResource_ok (fun _ => False) inherited named written with
    ⟨tag, checks, found, rfl, sound, rfl⟩
  have wholeRoot := Site.isWhole_ofSpec firstDotted secondDotted
  refine ⟨tag, found, callsConversion_iff Delta.isFlat_action sound wholeRoot (by simp) ?_ ?_⟩
  · intro blocks site reached level
    exact Delta.isPlain_action (reached.isWhole wholeRoot) (reached.pathWords Site.isWord_ofSpec)
  · intro blocks site reached
    exact not_convertsTags_delta reached wholeRoot Site.isWord_ofSpec

theorem callsConversion_equality {fits : Shape → Prop}
    (inherited : Shape.Inherited normalizer fits)
    (words : ∀ shape : Shape, shape.IsPlain fits → Text.IsWord shape.name)
    (named : resource.Named Text.IsWord fits) (firstDotted : Text.IsDotted first)
    (secondDotted : Text.IsDotted second) {queue after : HelperQueue} {code : EqualityCode}
    (written : Equality.compareResource resource normalizer first second level queue =
      (.ok code, after)) :
    ∃ tag, resource.tagField = .ok tag ∧ (CallsConversion code.body ↔
      Check.tagSitesOf ((Equality.resourceStrategy resource normalizer
        (tag.map Field.path)).resource resource first second) ≠ []) := by
  let call := Equality.resourceCall resource normalizer first second level
  have run : call.run queue = (.ok code, after) := written
  rcases Equality.Call.succeeds_of_run run with ⟨checks, added, helpers, succeeds⟩
  have callNamed : call.IsNamed fits := ⟨firstDotted, secondDotted, named⟩
  have sound := Equality.Call.soundOf_checks inherited callNamed succeeds.planned
  rcases Outcome.of_bind_eq_ok succeeds.planned with ⟨tag, found, made⟩
  cases made
  refine ⟨tag, Outcome.of_mapError_eq_ok found, ?_⟩
  rw [succeeds.body]
  exact callsConversion_iff Equality.isFlat_action sound (Equality.Call.isWhole_root callNamed)
    words (fun _ _ _ _ => Equality.isPlain_action) (fun _ site _ => not_convertsTags_equality site)

end

/--
A comparison whose text calls the function that converts tags has a tag field. Both conversions
are written if the shape of the field can hold tags, and both fail if it cannot.
-/
theorem conversions_of_comparison (resource : Resource) (normalizer : Normalizer)
    (first second : String)
    (named : resource.Named Text.IsWord (Shape.Named normalizer Text.IsWord Text.IsWord))
    (firstDotted : Text.IsDotted first) (secondDotted : Text.IsDotted second)
    (called :
      (∃ level text, Delta.compareResource resource normalizer first second level = .ok text ∧
        CallsConversion text) ∨
      ∃ level queue code after, Equality.compareResource resource normalizer first second level
        queue = (.ok code, after) ∧ CallsConversion code.body) :
    ∃ field, resource.tagField = .ok (some field) ∧
      (field.shape.HoldsTags resource.settings.tags.keyName resource.settings.tags.valueName →
        ∀ source target order level,
          (∃ text, toCanonical resource source target order level = .ok text ∧ text ≠ "") ∧
            ∃ text, ofCanonical resource source order target level = .ok text ∧ text ≠ "") ∧
      (¬field.shape.HoldsTags resource.settings.tags.keyName resource.settings.tags.valueName →
        let error := TagError.unsupportedShape field.path.text field.shape.name
          resource.settings.tags.keyName resource.settings.tags.valueName
        ∀ source target order level,
          toCanonical resource source target order level = .error error ∧
            ofCanonical resource source order target level = .error error) := by
  have hasTags : ∃ field, resource.tagField = .ok (some field) := by
    have inherited := Shape.inherited_named normalizer Text.IsWord
    rcases called with ⟨level, text, written, called⟩ | ⟨level, queue, code, after, written, called⟩
    · rcases callsConversion_delta inherited named firstDotted secondDotted written with
        ⟨tag, found, calledIff⟩
      rcases exists_tagField (Delta.observes resource normalizer tag)
        (Delta.passesTags_strategy resource normalizer _) (calledIff.mp called) with ⟨field, rfl⟩
      exact ⟨field, found⟩
    · rcases callsConversion_equality inherited (fun _ plain => plain.named) named firstDotted
        secondDotted written with ⟨tag, found, calledIff⟩
      rcases exists_tagField (Equality.observes resource normalizer tag)
        (Equality.passesTags_strategyWith normalizer _ _) (calledIff.mp called) with ⟨field, rfl⟩
      exact ⟨field, found⟩
  rcases hasTags with ⟨field, found⟩
  refine ⟨field, found, ?_, ?_⟩
  · intro holds source target order level
    exact ⟨renderFor_of_holdsTags found holds, renderFor_of_holdsTags found holds⟩
  · intro holdsNot error source target order level
    exact ⟨renderFor_of_not_holdsTags found holdsNot, renderFor_of_not_holdsTags found holdsNot⟩

/-- The tags of a queue are texts in a list: they are compared, but no conversion is written. -/
theorem conversions_of_comparison_textList :
    let tags : Shape := .sequence "StringList" (Shape.scalarOf .string)
    let spec : Shape := .struct "QueueSpec" [("Name", Shape.scalarOf .string), ("Tags", tags)]
    ∃ resource text, Resource.ofDefinition ⟨"Queue", spec, none, ∅⟩ {} .default = .ok resource ∧
      Delta.compareResource resource .default "a.ko" "b.ko" 1 = .ok text ∧ CallsConversion text ∧
        toCanonical resource "tags" "result" "keyOrder" 1 =
          .error (.unsupportedShape "Tags" "StringList" "Key" "Value") := by
  intro tags spec
  have facts : ∃ resource ∈ (Resource.ofDefinition ⟨"Queue", spec, none, ∅⟩ {}
      .default).toOption,
        resource.Named Text.IsWord (Shape.Named .default Text.IsWord Text.IsWord) ∧
          (Delta.compareResource resource .default "a.ko" "b.ko" 1).toOption.isSome = true ∧
            ∃ tag ∈ resource.tagField.toOption,
              (Check.tagSitesOf ((Delta.strategy resource .default
                (tag.map Field.path)).resource resource "a.ko" "b.ko")).isEmpty = false ∧
              ∃ field ∈ tag, field.path.text = "Tags" ∧ field.shape.name = "StringList" ∧
                resource.settings.tags.keyName = "Key" ∧
                  resource.settings.tags.valueName = "Value" ∧
                    ¬field.shape.HoldsTags "Key" "Value" := by
    decide +kernel
  rcases facts with ⟨resource, made, named, succeeds, tag, isTag, nonempty, expected, isField, path,
    shape, keyName, valueName, holdsNot⟩
  rcases Option.isSome_iff_exists.mp succeeds with ⟨text, given⟩
  have written := Outcome.of_mem_toOption given
  have found := Outcome.of_mem_toOption isTag
  have called : CallsConversion text := by
    rcases callsConversion_delta (Shape.inherited_named .default Text.IsWord) named (by decide)
      (by decide) written with ⟨other, foundOther, calledIff⟩
    cases found.symm.trans foundOther
    rw [calledIff, ← List.isEmpty_eq_false_iff]
    exact nonempty
  rcases conversions_of_comparison resource .default "a.ko" "b.ko" named (by decide) (by decide)
    (Or.inl ⟨1, text, written, called⟩) with ⟨field, foundField, _, fails⟩
  cases found.symm.trans foundField
  cases Option.mem_some.mp isField
  rw [keyName, valueName] at fails
  have failure := (fails holdsNot "tags" "result" "keyOrder" 1).1
  rw [path, shape] at failure
  exact ⟨resource, text, Outcome.of_mem_toOption made, written, called, failure⟩

end Tags

end Reconcile
