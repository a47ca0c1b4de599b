import Reconcile.Proofs.References.Resolution

/-!
# Scopes of loop variables

The code for references is nested, and it uses the variables of loops inside these loops only, all
of them, where names and settings are words (`References.well_scoped`). An operand that is named
like the variable of a loop is taken for it inside the loop, and in front of the loop there is no
such variable (`References.operand_out_of_scope`).
-/

namespace Reconcile.References

open Line Reference

variable {reference : Reference} {object : String} {given blocks : List String} {access : Access}

/-! ### Validation -/

/-- A test of both fields in which nothing is done but returning an error. -/
theorem fitsIn_complaint {test : Access → String} (isTest : IsTest test)
    (worded : reference.IsWorded) (inScope : InScope given blocks access)
    (apart : (declared blocks).Nodup) {complaint : String} (calm : Text.IsCalm complaint)
    (noLoop : isLoop complaint = false) (names : uses complaint = ["return", "ackerr"]) :
    Code.FitsIn isLoopVariable given blocks [
      .block ("if " ++ test (access.member reference.name) ++ " && " ++
        test (access.member reference.field.names.exported)) [.line complaint]] := by
  apply fitsIn_ifBoth isTest (inScope.member worded.name) (inScope.member worded.field.name) apart
  intro header isFlat
  apply Code.fitsIn_line calm noLoop
  · rwa [Code.declared_flat isFlat]
  · rw [names]
    simp [isLoopVariable]

theorem fitsIn_validationCode (worded : reference.IsWorded) (dotted : Text.IsDotted object) :
    Code.FitsIn isLoopVariable (namesIn object.toList) [] (validationCode object reference) := by
  have plain := isPlain_opened worded dotted false
  have other := plain.member worded.name
  have own := plain.member worded.field.name
  apply fitsIn_opened worded dotted
  · intro name isName
    split
    · exact Code.Mentions.append_left (mentions_ifBoth isTest_isPresent other own isName _)
    · exact mentions_ifBoth isTest_isPresent other own isName _
  · intro isIndexed
    cases isIndexed
  · intro blocks inScope areDeclared
    have apart : (declared blocks).Nodup := by
      rw [areDeclared]
      exact nodup_loopVariablesBelow false reference.listDepth
    have path := isDotted_path worded.field.path
    have otherPath := isDotted_path worded.path
    have name := worded.field.name.isDotted
    have otherName := worded.name.isDotted
    have conflict : Text.IsCalm ("return ackerr.ResourceReferenceAndIDNotSupportedFor(\"" ++
        reference.field.path.text ++ "\", \"" ++ reference.path.text ++ "\")") := by
      simp +decide [Text.IsCalm.append_iff, Text.IsCalm.of_isDotted, path, otherPath]
    have lack : Text.IsCalm ("return ackerr.ResourceReferenceOrIDRequiredFor(\"" ++
        reference.field.names.exported ++ "\", \"" ++ reference.name ++ "\")") := by
      simp +decide [Text.IsCalm.append_iff, Text.IsCalm.of_isDotted, name, otherName]
    have conflictFits := fitsIn_complaint isTest_isPresent worded inScope apart conflict
      (isLoop_of_head (by simp)) (uses_conflict path.noQuote otherPath.noQuote)
    have lackFits := fitsIn_complaint isTest_isAbsent worded inScope apart lack
      (isLoop_of_head (by simp)) (uses_lack name.noQuote otherName.noQuote)
    split
    · exact conflictFits.append lackFits
    · exact conflictFits

/-! ### The question for references -/

theorem fitsIn_presenceCode (worded : reference.IsWorded) (dotted : Text.IsDotted object) :
    Code.FitsIn isLoopVariable (namesIn object.toList) [] (presenceCode object reference) := by
  have plain := isPlain_opened worded dotted false
  apply fitsIn_opened worded dotted
  · intro name isName
    exact mentions_if isTest_isPresent (plain.member worded.name) isName _
  · intro isIndexed
    cases isIndexed
  · intro blocks inScope areDeclared
    apply fitsIn_if isTest_isPresent (inScope.member worded.name)
    · rw [areDeclared]
      exact nodup_loopVariablesBelow false reference.listDepth
    · intro header noLoop
      have names : uses "return true" = ["return", "true"] := by decide
      apply Code.fitsIn_line (by decide) (by decide)
      · rw [Code.declared_flat noLoop, areDeclared]
        exact nodup_loopVariablesBelow false reference.listDepth
      · rw [names]
        simp [isLoopVariable]

/-- The statement that asks for all references outside of sequences. -/
theorem fitsIn_presenceTerms {references : List Reference}
    (worded : ∀ reference ∈ references, reference.IsWorded) (dotted : Text.IsDotted object) :
    Code.FitsIn isLoopVariable (namesIn object.toList) []
      [.line ("return false" ++ String.join (references.map (presenceTerm object)))] := by
  have start : InScope (namesIn object.toList) [] (desired object) := inScope_desired dotted
  apply Code.fitsIn_line
  · apply Text.IsCalm.append (by decide)
    apply Text.IsCalm.join
    intro term isTerm
    rcases List.mem_map.mp isTerm with ⟨reference, isReference, rfl⟩
    have chain := calm_chain isTest_isPresent (by decide : Text.IsCalm " && ") start.plain
      (worded reference isReference).path
    exact (Text.IsCalm.append (by decide) chain).append (by decide)
  · exact isLoop_of_head (by simp)
  · exact List.nodup_nil
  · have terms : references.map (presenceTerm object) =
        (references.map (fun reference => reference.path.segments)).map (fun path =>
          " || (" ++ Access.presenceChain (desired object) path ++ ")") := by
      rw [List.map_map]
      rfl
    have words : ∀ path ∈ references.map (fun reference => reference.path.segments),
        path ≠ [] ∧ ∀ name ∈ path, Text.IsWord name := by
      intro path isPath
      rcases List.mem_map.mp isPath with ⟨reference, isReference, rfl⟩
      exact ⟨(worded reference isReference).nonempty, (worded reference isReference).path⟩
    rw [terms, uses_presenceChains start.plain words]
    have each : ∀ path : List String, Bound isLoopVariable (namesIn object.toList) []
        (path.flatMap (fun _ => (desired object).names ++ ["nil"])) := by
      intro path
      apply bound_flatMap
      simp [start.bound, isLoopVariable]
    simp [bound_flatMap, each, isLoopVariable]

/-! ### Clearing -/

theorem fitsIn_reset (worded : reference.IsWorded)
    (target : InScope given blocks (indexedAccess (desired object) 0 reference.parents))
    (apart : (declared blocks).Nodup) : Code.FitsIn isLoopVariable given blocks
      [.line ((reference.concrete object).text ++ " = nil")] := by
  have own := target.member worded.field.name
  apply Code.fitsIn_line
  · exact Text.IsCalm.append own.calm (by decide)
  · exact isLoop_member target.plain worded.field.name (by simp [concrete])
  · exact apart
  · rw [concrete, uses_reset target.plain worded.field.name]
    simp [target.bound, isLoopVariable]

theorem mentions_reset (worded : reference.IsWorded) (dotted : Text.IsDotted object) {number : Nat}
    (inner : number < reference.listDepth) :
    Code.Mentions [.line ((reference.concrete object).text ++ " = nil")] (position number) := by
  have plain := isPlain_indexedAccess 0 (isPlain_desired dotted) worded.parents
  apply Code.mentions_line
  rw [concrete, uses_reset plain worded.field.name]
  exact List.mem_append_left _ (position_mem_indexedAccess _ inner)

theorem fitsIn_clearanceCode (worded : reference.IsWorded) (dotted : Text.IsDotted object) :
    Code.FitsIn isLoopVariable (namesIn object.toList) [] (clearanceCode object reference) := by
  have plain := (isPlain_opened worded dotted true).member worded.name
  rcases @clears_clearanceCode reference object with ⟨code, isCode, clears⟩
  rw [isCode]
  apply fitsIn_opened worded dotted
  · intro name isName
    cases clears with
    | single _ => exact mentions_if isTest_isPresent plain isName _
    | list _ => exact mentions_ifAny plain isName _
  · intro _ number inner
    cases clears with
    | single _ => exact (mentions_reset worded dotted inner).block
    | list _ => exact (mentions_reset worded dotted inner).block
  · intro blocks inScope areDeclared
    have apart : (declared blocks).Nodup := by
      rw [areDeclared]
      exact nodup_loopVariablesBelow true reference.listDepth
    have reset : ∀ header, isLoop header = false → Code.FitsIn isLoopVariable
        (namesIn object.toList) (header :: blocks)
          [.line ((reference.concrete object).text ++ " = nil")] := by
      intro header noLoop
      have same := @Code.declared_flat blocks _ noLoop
      apply fitsIn_reset worded _ (same ▸ apart)
      apply inScope_indexedAccess worded dotted
      intro number inner
      rw [same, areDeclared]
      exact position_mem_below inner
    cases clears with
    | single _ => exact fitsIn_if isTest_isPresent (inScope.member worded.name) apart reset
    | list _ => exact fitsIn_ifAny (inScope.member worded.name) apart reset

/-! ### All code for references -/

variable {resource : Resource} {level : Nat} {text : String}
  {write : Resource → String → Nat → Except ReferenceError String}

theorem fitsIn_clearance {references : List Reference}
    (worded : ∀ field ∈ resource.specFields.values, field.IsWorded) (dotted : Text.IsDotted object)
    (collected : all resource = .ok references) :
    Code.FitsIn isLoopVariable (namesIn object.toList) []
      (references.flatMap (clearanceCode object)) := by
  apply Code.fitsIn_flatMap
  intro reference listed
  exact fitsIn_clearanceCode (isWorded_of_mem worded collected listed) dotted

/--
The code for references is nested. Loop variables are used inside the loops that declare them only,
except for names in the operand. No loop declares a variable of a loop around it, and each variable
is used in its loop.
-/
theorem well_scoped (worded : ∀ field ∈ resource.specFields.values, field.IsWorded)
    (dotted : Text.IsDotted object) (isOne : write ∈ [validate, present, resolve, clear])
    (written : write resource object level = .ok text) :
    Code.IsNested level text ∧ Code.IsScoped isLoopVariable (namesIn object.toList) text := by
  have words : ∀ {references}, all resource = .ok references →
      ∀ reference ∈ references, reference.IsWorded :=
    fun collected reference listed => isWorded_of_mem worded collected listed
  simp only [List.mem_cons, List.not_mem_nil, or_false] at isOne
  rcases isOne with rfl | rfl | rfl | rfl
  · rcases Outcome.of_bind_eq_ok written with ⟨references, collected, written⟩
    cases written
    apply Code.isScoped_render
    apply Code.fitsIn_flatMap
    intro reference listed
    exact fitsIn_validationCode (words collected reference listed) dotted
  · rcases Outcome.of_bind_eq_ok written with ⟨references, collected, written⟩
    cases written
    apply Code.isScoped_render
    apply Code.FitsIn.append
    · apply Code.fitsIn_flatMap
      intro reference inLists
      have listed := (List.mem_partition.mpr (Or.inl inLists) : reference ∈ references)
      exact fitsIn_presenceCode (words collected reference listed) dotted
    · apply fitsIn_presenceTerms _ dotted
      intro reference outside
      exact words collected reference (List.mem_partition.mpr (Or.inr outside))
  · rcases Outcome.of_bind_eq_ok written with ⟨references, collected, written⟩
    rcases Outcome.of_bind_eq_ok written with ⟨codes, areWritten, written⟩
    cases written
    apply Code.isScoped_render
    rw [← List.flatMap_id]
    apply Code.fitsIn_flatMap
    intro code isCode
    rcases exists_left_of_mem (Outcome.forall₂_of_mapM_eq_ok areWritten) isCode with
      ⟨reference, listed, done⟩
    exact fitsIn_resolutionCode (words collected reference listed) dotted done
  · rcases Outcome.of_bind_eq_ok written with ⟨references, collected, written⟩
    cases written
    exact Code.isScoped_render (fitsIn_clearance worded dotted collected)

theorem well_scoped_network : ∃ resource,
    Resource.ofDefinition networkDefinition networkReferences .default = .ok resource ∧
    (∀ field ∈ resource.specFields.values, field.IsWorded) ∧
    ∀ write ∈ [validate, present, resolve, clear], ∃ text, write resource "ko" 1 = .ok text ∧
      Code.IsNested 1 text ∧ Code.IsScoped isLoopVariable ["ko"] text := by
  have facts : ∃ resource ∈
        (Resource.ofDefinition networkDefinition networkReferences .default).toOption,
      (∀ field ∈ resource.specFields.values, field.IsWorded) ∧
        ∀ write ∈ [validate, present, resolve, clear],
          (write resource "ko" 1).toOption.isSome = true := by
    decide +kernel
  rcases facts with ⟨resource, made, worded, succeeds⟩
  refine ⟨resource, Outcome.of_mem_toOption made, worded, ?_⟩
  intro write isOne
  rcases Option.isSome_iff_exists.mp (succeeds write isOne) with ⟨text, isText⟩
  have written := Outcome.of_mem_toOption isText
  have object : namesIn "ko".toList = ["ko"] := by decide
  rw [← object]
  exact ⟨text, written, well_scoped worded (by decide) isOne written⟩

/-- An operand may be named like a loop variable, which is unknown where the operand is needed. -/
theorem operand_out_of_scope :
    ¬∀ (definition : ResourceDefinition) (settings : Settings) (normalizer : Normalizer)
      (resource : Resource) (object text : String) (level : Nat)
      (write : Resource → String → Nat → Except ReferenceError String),
        Resource.ofDefinition definition settings normalizer = .ok resource →
          (∀ field ∈ resource.specFields.values, field.IsWorded) → Text.IsDotted object →
            write ∈ [validate, present, resolve, clear] → write resource object level = .ok text →
              Code.IsNested level text ∧ Code.IsScoped isLoopVariable [] text := by
  intro keeps
  have facts : ∃ resource ∈
        (Resource.ofDefinition networkDefinition networkReferences .default).toOption,
      (∀ field ∈ resource.specFields.values, field.IsWorded) ∧
        ∃ references ∈ (all resource).toOption,
          (Code.linesOf (references.flatMap (clearanceCode "f0iter")) 1).head? =
            some ⟨1, "for f0idx, f0iter := range f0iter.Spec.Groups \x7b"⟩ := by
    decide +kernel
  rcases facts with ⟨resource, made, worded, references, isAll, isFirst⟩
  have collected := Outcome.of_mem_toOption isAll
  have fitsIn := fitsIn_clearance worded (by decide : Text.IsDotted "f0iter") collected
  have written : clear resource "f0iter" 1 =
      .ok (Code.render (references.flatMap (clearanceCode "f0iter")) 1) := by
    rw [clear, collected]
    rfl
  have isScoped := (keeps networkDefinition networkReferences .default resource "f0iter" _ 1 clear
    (Outcome.of_mem_toOption made) worded (by decide) (by simp) written).2
  rcases List.head?_eq_some_iff.mp isFirst with ⟨rest, areLines⟩
  have bound := isScoped.bound
  rw [Code.readAll_render fitsIn, areLines] at bound
  -- The loop declares the variable for the lines inside it, not for its header.
  have inHeader : "f0iter" ∈ uses "for f0idx, f0iter := range f0iter.Spec.Groups \x7b" := by decide
  rcases bound.1 "f0iter" inHeader (by decide) with isGiven | isDeclared
  · exact absurd isGiven List.not_mem_nil
  · exact absurd isDeclared (by decide)

end Reconcile.References
