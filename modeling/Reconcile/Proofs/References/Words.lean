import Reconcile.Proofs.References.Loops
import Reconcile.Proofs.Text.LetterCase

/-!
# Words of references

The code for a reference is made of the names of fields and of the settings of the reference, which
are words (`Reference.IsWorded`). Code that is put inside the blocks for the parents of the field
fits in if it does so where the variables of their loops are known (`References.fitsIn_opened`).
-/

namespace Reconcile

open Line

/-- A text of word letters and hyphens only. -/
def Text.IsHyphenated (text : String) : Prop :=
  ∀ letter ∈ text.toList, isWordLetter letter = true ∨ letter = '-'

instance (text : String) : Decidable (Text.IsHyphenated text) :=
  List.decidableBAll (fun letter => Text.isWordLetter letter = true ∨ letter = '-') text.toList

/-- Whether the settings of a reference are put together from words. -/
structure ReferenceSettings.IsWorded (settings : ReferenceSettings) : Prop where
  resource : Text.IsWord settings.resource
  path : Text.IsDotted settings.path
  service : ∀ service ∈ settings.service, Text.IsHyphenated service

/-- Whether the names of a field and the settings of its reference are put together from words. -/
structure Field.IsWorded (field : Field) : Prop where
  name : Text.IsWord field.names.exported
  path : ∀ segment ∈ field.path.segments, Text.IsWord segment
  type : field.shape.TypeIsWord
  reference : ∀ names ∈ field.reference, Text.IsWord names.exported
  settings : ∀ settings ∈ field.references?, settings.IsWorded

instance (settings : ReferenceSettings) : Decidable settings.IsWorded :=
  decidable_of_iff
    (Text.IsWord settings.resource ∧ Text.IsDotted settings.path ∧
      ∀ service ∈ settings.service, Text.IsHyphenated service)
    ⟨fun ⟨resource, path, service⟩ => ⟨resource, path, service⟩,
      fun ⟨resource, path, service⟩ => ⟨resource, path, service⟩⟩

instance (field : Field) : Decidable field.IsWorded :=
  decidable_of_iff
    (Text.IsWord field.names.exported ∧ (∀ segment ∈ field.path.segments, Text.IsWord segment) ∧
      field.shape.TypeIsWord ∧ (∀ names ∈ field.reference, Text.IsWord names.exported) ∧
        ∀ settings ∈ field.references?, settings.IsWorded)
    ⟨fun ⟨name, path, type, reference, settings⟩ => ⟨name, path, type, reference, settings⟩,
      fun ⟨name, path, type, reference, settings⟩ => ⟨name, path, type, reference, settings⟩⟩

namespace Reference

/-- Whether all that the code of a reference is made of are words. -/
structure IsWorded (reference : Reference) : Prop where
  field : reference.field.IsWorded
  settings : reference.settings.IsWorded
  name : Text.IsWord reference.name
  path : ∀ segment ∈ reference.path.segments, Text.IsWord segment
  nonempty : reference.path.segments ≠ []
  parents : ∀ parent ∈ reference.parents, Text.IsWord parent.names.exported

theorem mem_of_parent {resource : Resource} {field parent : Field} {path : FieldPath}
    (isParent : Reference.parent resource field path = .ok parent) :
    parent ∈ resource.specFields.values := by
  unfold Reference.parent at isParent
  split at isParent
  · cases isParent
  · rename_i found
    split at isParent
    · cases isParent
      exact Resource.mem_of_field? found
    · cases isParent
      exact Resource.mem_of_field? found
    · cases isParent
    · cases isParent

theorem exists_made {resource : Resource} {references : List Reference} {reference : Reference}
    (collected : all resource = .ok references) (listed : reference ∈ references) :
    ∃ field ∈ resource.specFields.values, Made resource field reference := by
  rcases Outcome.of_bind_eq_ok collected with ⟨found, made, isList⟩
  cases isList
  rcases List.mem_filterMap.mp listed with ⟨reference?, isFound, isReference⟩
  cases isReference
  rcases exists_left_of_mem (Outcome.forall₂_of_mapM_eq_ok made) isFound with
    ⟨field, referencing, isMade⟩
  exact ⟨field, (Resource.mem_referencingFields.mp referencing).1, made_of_ofField isMade⟩

theorem isWorded_of_mem {resource : Resource} {references : List Reference} {reference : Reference}
    (worded : ∀ field ∈ resource.specFields.values, field.IsWorded)
    (collected : all resource = .ok references) (listed : reference ∈ references) :
    reference.IsWorded := by
  rcases exists_made collected listed with ⟨field, isField, made⟩
  have isWorded := worded field isField
  have same := made.isField
  subst same
  rcases Option.map_eq_some_iff.mp made.isName with ⟨names, isReference, isName⟩
  have isWord := isWorded.reference names isReference
  have isPath := made.isPath
  rw [Field.referencePath?, isReference, Option.map_some] at isPath
  have segments : reference.path.segments =
      reference.field.path.segments.dropLast ++ [names.exported] := by
    rw [← Option.some.inj isPath]
    rfl
  have settings := isWorded.settings _ made.isSettings
  refine ⟨isWorded, settings, isName ▸ isWord, ?_, by simp [segments], ?_⟩
  · intro segment isSegment
    rw [segments] at isSegment
    rcases List.mem_append.mp isSegment with inFront | isLast
    · exact isWorded.path segment ((List.dropLast_sublist _).subset inFront)
    · rw [List.mem_singleton.mp isLast]
      exact isWord
  · intro parent isParent
    rcases exists_left_of_mem (Outcome.forall₂_of_mapM_eq_ok made.areParents) isParent with
      ⟨path, _, isFound⟩
    exact (worded parent (mem_of_parent isFound)).name

end Reference

namespace References

open Reference

variable {reference : Reference} {object : String} {given blocks : List String} {access : Access}

theorem isDotted_path {path : FieldPath} (words : ∀ segment ∈ path.segments, Text.IsWord segment) :
    Text.IsDotted path.text :=
  Text.isDotted_intercalate words

theorem isPlain_opened (worded : reference.IsWorded) (dotted : Text.IsDotted object)
    (indexed : Bool) : (reference.opened object indexed).2.IsPlain :=
  isPlain_openings 0 (isPlain_desired dotted) worded.parents

/-- Code for a reference fits in inside the blocks for its parents if it fits in behind them. -/
theorem fitsIn_opened {indexed : Bool} {body : List Code} (worded : reference.IsWorded)
    (dotted : Text.IsDotted object)
    (mentionsLast : ∀ name ∈ (reference.opened object indexed).2.names, Code.Mentions body name)
    (mentionsPositions : indexed = true → ∀ number < reference.listDepth,
      Code.Mentions body (position number))
    (inner : ∀ blocks, InScope (namesIn object.toList) blocks (reference.opened object indexed).2 →
      declared blocks = loopVariablesBelow indexed reference.listDepth →
        Code.FitsIn isLoopVariable (namesIn object.toList) blocks body) :
    Code.FitsIn isLoopVariable (namesIn object.toList) []
      (inside (reference.opened object indexed).1 body) := by
  have isDepth : 0 + sequences reference.parents = reference.listDepth := Nat.zero_add _
  apply fitsIn_openings worded.parents (inScope_desired dotted) rfl mentionsLast
  · rwa [isDepth]
  · rwa [isDepth]

theorem inScope_indexedAccess (worded : reference.IsWorded) (dotted : Text.IsDotted object)
    (areDeclared : ∀ number < reference.listDepth, position number ∈ declared blocks) :
    InScope (namesIn object.toList) blocks
      (indexedAccess (desired object) 0 reference.parents) where
  plain := isPlain_indexedAccess 0 (isPlain_desired dotted) worded.parents
  bound := by
    rw [names_indexedAccess, bound_append]
    refine ⟨(inScope_desired dotted).bound, ?_⟩
    intro name isName _
    rcases List.mem_map.mp isName with ⟨number, inRange, rfl⟩
    rw [← List.range_eq_range', List.mem_range] at inRange
    exact Or.inr (areDeclared number inRange)

/-- Writing to a field uses the positions in all sequences around it. -/
theorem position_mem_indexedAccess (start : Access) {number : Nat}
    (inner : number < reference.listDepth) :
    position number ∈ (indexedAccess start 0 reference.parents).names := by
  rw [names_indexedAccess, ← List.range_eq_range', List.mem_append]
  exact Or.inr (List.mem_map_of_mem (List.mem_range.mpr inner))

end References

end Reconcile
