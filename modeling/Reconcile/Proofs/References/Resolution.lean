import Reconcile.Proofs.References.Words

/-!
# Scopes in resolution

The resolution of a reference is put inside the loops over the sequences around the field, and a
list of references is gone through in one more loop. All lines use known variables only, and the
line that assigns the field uses the positions in all sequences around it
(`References.fitsIn_resolutionCode`).
-/

namespace Reconcile.References

open Line Reference

variable {reference : Reference} {object : String} {given blocks : List String} {access : Access}

/-! ### Settings -/

/-- The package with the types of another resource is a name, and no loop variable. -/
theorem isWord_package {settings : ReferenceSettings} (worded : settings.IsWorded) :
    Text.IsWord settings.package := by
  unfold ReferenceSettings.package
  split
  · rename_i service isService
    apply Text.IsWord.append _ (by decide)
    intro letter isLetter
    rw [String.toList_ofList, List.mem_filter, Text.lower, String.toList_ofList] at isLetter
    rcases isLetter with ⟨isLower, noHyphen⟩
    rcases List.mem_map.mp isLower with ⟨given, isGiven, rfl⟩
    rcases worded.service service isService given isGiven with isWord | rfl
    · exact Text.isWordLetter_toLower isWord
    · exact absurd noHyphen (by decide)
  · decide

theorem package_ends (settings : ReferenceSettings) :
    settings.package.toList.getLast? = some 's' := by
  unfold ReferenceSettings.package
  split
  · simp
  · decide

theorem package_ne_empty (settings : ReferenceSettings) : settings.package ≠ "" := by
  intro isEmpty
  have ends := package_ends settings
  rw [isEmpty] at ends
  exact absurd ends (by decide)

theorem isLoopVariable_package (settings : ReferenceSettings) :
    isLoopVariable settings.package = false := by
  rw [← Bool.not_eq_true]
  intro isVariable
  have ends := package_ends settings
  unfold isLoopVariable at isVariable
  split at isVariable
  · rename_i rest isName
    -- The name of a loop variable ends in another letter.
    have parts := List.takeWhile_append_dropWhile (p := Char.isDigit) (l := rest)
    simp only [Bool.and_eq_true, Bool.or_eq_true, beq_iff_eq] at isVariable
    rw [isName, ← parts, ← List.cons_append, List.getLast?_append] at ends
    rcases isVariable.2 with isEnd | isEnd <;> simp [isEnd] at ends
  · cases isVariable

theorem isLoopVariable_call (name : String) :
    isLoopVariable ("getReferencedResourceState_" ++ name) = false := by
  simp [isLoopVariable]

/-- A condition on the value of another resource is a chain of tests along words. -/
theorem exists_absenceChain {settings : ReferenceSettings} {valueAbsent : String}
    (located : settings.absenceCheck "obj" = .ok valueAbsent)
    (dotted : Text.IsDotted settings.path) :
    ∃ root below, Text.IsWord root ∧ (∀ name ∈ below, Text.IsWord name) ∧ below ≠ [] ∧
      valueAbsent = Access.absenceChain (.member (.root "obj") root) below := by
  rcases Outcome.of_bind_eq_ok located with ⟨path, parsed, located⟩
  have parsed := Outcome.of_mapError_eq_ok parsed
  have words : ∀ segment ∈ path.segments, Text.IsWord segment := by
    intro segment isSegment
    rw [FieldPath.segments_of_parse parsed] at isSegment
    exact Text.isWord_of_mem_split dotted isSegment
  rcases path with ⟨_ | ⟨root, _ | ⟨first, rest⟩⟩⟩
  · cases located
  · cases located
  · cases located
    rcases List.forall_mem_cons.mp words with ⟨isWord, others⟩
    exact ⟨root, first :: rest, isWord, others, List.cons_ne_nil _ _, rfl⟩

/-! ### Assignment -/

/-- The value of another resource is assigned to the field, or put at the end of a list. -/
theorem fitsIn_assignment (worded : reference.IsWorded)
    (target : InScope given blocks (indexedAccess (desired object) 0 reference.parents))
    (apart : (declared blocks).Nodup) :
    Code.FitsIn isLoopVariable given blocks
      (assignment object reference (.member (.root "obj") reference.settings.path)) := by
  have own := target.member worded.field.name
  have path := worded.settings.path
  have value : Text.IsCalm (Access.member (.root "obj") reference.settings.path).text := by
    simp +decide [Access.text, Text.IsCalm.append_iff, Text.IsCalm.of_isDotted path]
  cases isList : reference.isList with
  | true =>
      rcases exists_element isList with ⟨name, element, isShape⟩
      have elementWord := worded.field.type
      rw [isShape] at elementWord
      have type := Shape.isTypeText_goType element elementWord
      rw [assignment, isShape]
      refine Code.FitsIn.append (?_ : Code.FitsIn _ _ _ [_]) (?_ : Code.FitsIn _ _ _ [_])
      · apply fitsIn_if isTest_isAbsent own apart
        intro header noLoop
        have inner := target.flat noLoop
        apply Code.fitsIn_line
        · simp +decide [concrete, Text.IsCalm.append_iff, own.calm, type.calm]
        · exact isLoop_member target.plain worded.field.name (by simp [concrete])
        · rwa [Code.declared_flat noLoop]
        · rw [concrete, uses_make target.plain worded.field.name type.noQuote]
          simp [inner.bound, bound_of_forall type.names, isLoopVariable]
      · apply Code.fitsIn_line
        · simp +decide [concrete, Text.IsCalm.append_iff, own.calm, type.calm, value]
        · exact isLoop_member target.plain worded.field.name (by simp [concrete])
        · exact apart
        · rw [concrete, uses_append target.plain worded.field.name type.noQuote path]
          simp [target.bound, bound_of_forall type.names, isLoopVariable]
  | false =>
      have type := Shape.isTypeText_goType _ worded.field.type
      rw [assignment_single isList]
      apply Code.fitsIn_line
      · simp +decide [concrete, Text.IsCalm.append_iff, own.calm, type.calm, value]
      · exact isLoop_member target.plain worded.field.name (by simp [concrete])
      · exact apart
      · rw [concrete, uses_assign target.plain worded.field.name type.noQuote path]
        simp [target.bound, bound_of_forall type.names, isLoopVariable]

theorem mentions_assignment (worded : reference.IsWorded)
    (plain : (indexedAccess (desired object) 0 reference.parents).IsPlain) {name : String}
    (isName : name ∈ (indexedAccess (desired object) 0 reference.parents).names) :
    Code.Mentions (assignment object reference (.member (.root "obj") reference.settings.path))
      name := by
  have path := worded.settings.path
  cases isList : reference.isList with
  | true =>
      rcases exists_element isList with ⟨list, element, isShape⟩
      have own := plain.member worded.field.name
      rw [assignment, isShape]
      exact Code.Mentions.append_left (mentions_if isTest_isAbsent own isName _)
  | false =>
      have type := Shape.isTypeText_goType _ worded.field.type
      rw [assignment_single isList]
      apply Code.mentions_line
      rw [concrete, uses_assign plain worded.field.name type.noQuote path]
      simp [isName]

/-! ### Lines of the resolution -/

theorem fitsIn_found (inScope : InScope given blocks access) (apart : (declared blocks).Nodup) :
    Code.FitsIn isLoopVariable given blocks
      [.line ("arr := " ++ (access.member "From").text)] := by
  have source := inScope.member (by decide : Text.IsWord "From")
  apply Code.fitsIn_line
  · exact Text.IsCalm.append (by decide) source.calm
  · exact isLoop_of_head (by simp)
  · exact apart
  · rw [uses_found source.plain]
    simp [source.bound, isLoopVariable]

theorem fitsIn_unset (worded : reference.IsWorded) (apart : (declared blocks).Nodup) :
    Code.FitsIn isLoopVariable given blocks [
      .block "if arr.Name == nil || *arr.Name == \"\"" [
        .line ("return hasReferences, fmt.Errorf(\"provided resource reference is nil or empty: " ++
          reference.path.text ++ "\")")]] := by
  have path := isDotted_path worded.path
  have names : uses ("if arr.Name == nil || *arr.Name == \"\"" ++ " \x7b") =
      ["if", "arr", "nil", "arr"] := by decide
  apply Code.fitsIn_test apart
  · decide
  · decide
  · rw [names]
    simp [isLoopVariable]
  · simp +decide [Text.IsCalm.append_iff, Text.IsCalm.of_isDotted path]
  · exact isLoop_of_head (by simp)
  · rw [uses_unset path.noQuote]
    simp [isLoopVariable]

theorem fitsIn_object {settings : ReferenceSettings} (worded : settings.IsWorded)
    (apart : (declared blocks).Nodup) : Code.FitsIn isLoopVariable given blocks [
      .line ("obj := &" ++ settings.package ++ "." ++ settings.resource ++ "\x7b\x7d")] := by
  have package := isWord_package worded
  have packageCalm := Text.IsCalm.of_isDotted package.isDotted
  have resourceCalm := Text.IsCalm.of_isDotted worded.resource.isDotted
  -- The line has braces, but it opens no block.
  apply Code.fitsIn_statement
  · simp [closes]
  · rw [opens_append _ (by decide)]
    decide
  · simp [Line.IsPlain, packageCalm.not_mem, resourceCalm.not_mem]
  · exact isLoop_of_head (by simp)
  · exact apart
  · have isObject : isLoopVariable "obj" = false := by decide
    rw [uses_object package (package_ne_empty settings) worded.resource]
    simp [isObject, isLoopVariable_package]

theorem fitsIn_call {settings : ReferenceSettings} (worded : settings.IsWorded)
    (apart : (declared blocks).Nodup) : Code.FitsIn isLoopVariable given blocks [
      .block ("if err := getReferencedResourceState_" ++ settings.resource ++
        "(ctx, apiReader, obj, *arr.Name, namespace); err != nil") [
        .line "return hasReferences, err"]] := by
  have resourceCalm := Text.IsCalm.of_isDotted worded.resource.isDotted
  have isWord : Text.IsWord ("getReferencedResourceState_" ++ settings.resource) :=
    Text.IsWord.append (by decide) worded.resource
  have nonempty : "getReferencedResourceState_" ++ settings.resource ≠ "" := by simp
  have header : "if err := getReferencedResourceState_" ++ settings.resource ++
      "(ctx, apiReader, obj, *arr.Name, namespace); err != nil" ++ " \x7b" =
        "if err := " ++ ("getReferencedResourceState_" ++ settings.resource) ++
          "(ctx, apiReader, obj, *arr.Name, namespace); err != nil" ++ " \x7b" := by
    rw [← String.append_assoc]
    rfl
  have names : uses "return hasReferences, err" = ["return", "hasReferences", "err"] := by decide
  apply Code.fitsIn_test apart
  · simp +decide [Text.IsCalm.append_iff, resourceCalm]
  · exact isLoop_of_head (by simp)
  · have isCall := isLoopVariable_call settings.resource
    rw [header, uses_call isWord nonempty, bound_cons, bound_cons, bound_cons, isCall]
    simp [isLoopVariable]
  · decide
  · decide
  · rw [names]
    simp [isLoopVariable]

theorem fitsIn_state (worded : reference.IsWorded) (apart : (declared blocks).Nodup) :
    Code.FitsIn isLoopVariable given blocks (if reference.settings.skipStateCheck then [] else [
      .block "if !ackcondition.IsSynced(obj)" [
        .line ("ackrtlog.FromContext(ctx).Debug(\"referenced resource is not synced\", " ++
          "\"reference\", \"" ++ reference.path.text ++ "\")")]]) := by
  have path := isDotted_path worded.path
  have names : uses ("if !ackcondition.IsSynced(obj)" ++ " \x7b") =
      ["if", "ackcondition", "obj"] := by decide
  split
  · exact Code.fitsIn_nil
  · apply Code.fitsIn_test apart
    · decide
    · decide
    · rw [names]
      simp [isLoopVariable]
    · simp +decide [Text.IsCalm.append_iff, Text.IsCalm.of_isDotted path]
    · exact isLoop_of_head (by simp)
    · rw [uses_unsynced path.noQuote]
      simp [isLoopVariable]

theorem fitsIn_missing {settings : ReferenceSettings} (worded : settings.IsWorded)
    (apart : (declared blocks).Nodup) {valueAbsent : String}
    (located : settings.absenceCheck "obj" = .ok valueAbsent) :
    Code.FitsIn isLoopVariable given blocks [
      .block ("if " ++ valueAbsent) [
        .line ("return hasReferences, ackerr.ResourceReferenceMissingTargetFieldFor(\"" ++
          settings.resource ++ "\", namespace, *arr.Name, \"" ++ settings.path ++ "\")")]] := by
  rcases exists_absenceChain located worded.path with ⟨root, below, isWord, words, nonempty, rfl⟩
  have resource := worded.resource.isDotted
  have plain : (Access.member (.root "obj") root).IsPlain :=
    ⟨(by decide : Text.IsDotted "obj"), isWord⟩
  have names : (Access.member (.root "obj") root).names = ["obj"] := by
    rw [Access.names, Access.names]
    decide
  apply Code.fitsIn_test apart
  · exact Text.IsCalm.append (by decide) (calm_chain isTest_isAbsent (by decide) plain words)
  · exact isLoop_of_head (by simp)
  · have each : Bound isLoopVariable given blocks
        (below.flatMap (fun _ => ["obj"] ++ ["nil"])) := by
      apply bound_flatMap
      simp [isLoopVariable]
    rw [uses_absenceChain plain words nonempty, names, bound_cons]
    exact ⟨by simp [isLoopVariable], each⟩
  · simp +decide [Text.IsCalm.append_iff, Text.IsCalm.of_isDotted, resource, worded.path]
  · exact isLoop_of_head (by simp)
  · rw [uses_missing resource.noQuote worded.path.noQuote]
    simp [isLoopVariable]

/-- What is done for a reference that is set. -/
theorem fitsIn_resolutionBody (worded : reference.IsWorded) (inScope : InScope given blocks access)
    (target : InScope given blocks (indexedAccess (desired object) 0 reference.parents))
    (apart : (declared blocks).Nodup) {valueAbsent : String}
    (located : reference.settings.absenceCheck "obj" = .ok valueAbsent) :
    Code.FitsIn isLoopVariable given blocks
      (resolutionBody object reference access valueAbsent) := by
  have isSet : Code.FitsIn isLoopVariable given blocks [.line "hasReferences = true"] := by
    have names : uses "hasReferences = true" = ["hasReferences", "true"] := by decide
    apply Code.fitsIn_line (by decide) (by decide) apart
    simp [names, isLoopVariable]
  have front := (isSet.append (fitsIn_found inScope apart)).append (fitsIn_unset worded apart)
  have middle := (front.append (fitsIn_object worded.settings apart)).append
    (fitsIn_call worded.settings apart)
  have checked := (middle.append (fitsIn_state worded apart)).append
    (fitsIn_missing worded.settings apart located)
  exact checked.append (fitsIn_assignment worded target apart)

/-- Positions are used where the field is assigned. -/
theorem mentions_resolutionBody (worded : reference.IsWorded)
    (dotted : Text.IsDotted object) (access : Access) (valueAbsent : String) {number : Nat}
    (inner : number < reference.listDepth) :
    Code.Mentions (resolutionBody object reference access valueAbsent) (position number) := by
  have plain := isPlain_indexedAccess 0 (isPlain_desired dotted) worded.parents
  exact Code.Mentions.append_right
    (mentions_assignment worded plain (position_mem_indexedAccess _ inner))

/-- The resolution of a reference that can be reached where the positions are known. -/
theorem fitsIn_resolution (worded : reference.IsWorded) (dotted : Text.IsDotted object)
    {valueAbsent : String} (located : reference.settings.absenceCheck "obj" = .ok valueAbsent)
    (inScope : InScope (namesIn object.toList) blocks access) (apart : (declared blocks).Nodup)
    (areDeclared : ∀ number < reference.listDepth, position number ∈ declared blocks) :
    Code.FitsIn isLoopVariable (namesIn object.toList) blocks [
      .block ("if " ++ access.isPresent ++ " && " ++ (access.member "From").isPresent)
        (resolutionBody object reference access valueAbsent)] := by
  apply fitsIn_ifBoth isTest_isPresent inScope (inScope.member (by decide)) apart
  intro header noLoop
  have same := @Code.declared_flat blocks _ noLoop
  apply fitsIn_resolutionBody worded (inScope.flat noLoop) _ (same ▸ apart) located
  apply inScope_indexedAccess worded dotted
  rwa [same]

theorem fitsIn_resolutionCode (worded : reference.IsWorded) (dotted : Text.IsDotted object)
    {code : List Code} (written : resolutionCode object reference = .ok code) :
    Code.FitsIn isLoopVariable (namesIn object.toList) [] code := by
  have plain := (isPlain_opened worded dotted true).member worded.name
  rcases Outcome.of_bind_eq_ok written with ⟨valueAbsent, located, isCode⟩
  cases isList : reference.isList with
  | true =>
      -- A list of references is gone through in a loop of its own, whose position has no name.
      have blank : loopIndex false reference.listDepth = "_" := rfl
      have each : (Access.root (iterator reference.listDepth)).IsPlain :=
        (isWord_iterator reference.listDepth).isDotted
      simp only [isList, if_true] at isCode
      cases isCode
      rw [inside_append_singleton, ← blank]
      apply fitsIn_opened worded dotted
      · intro name isName
        apply Code.mentions_header
        rw [uses_loop false reference.listDepth plain]
        exact List.mem_cons_of_mem _ isName
      · intro _ number inner
        exact (mentions_resolutionBody worded dotted _ _ inner).block.block
      · intro blocks inScope areDeclared
        apply fitsIn_loop (inScope.member worded.name) areDeclared
        · intro name isVariable
          rw [loopVariables, if_neg Bool.false_ne_true, List.mem_singleton] at isVariable
          apply mentions_ifBoth isTest_isPresent each (each.member (by decide))
          rw [names_iterator, isVariable]
          exact List.mem_cons_self
        · intro header isDeclared
          have own : InScope (namesIn object.toList) (header :: blocks)
              (.root (iterator reference.listDepth)) := by
            apply inScope_iterator
            rw [isDeclared]
            exact List.mem_append_left _ (iterator_mem_loopVariables false reference.listDepth)
          apply fitsIn_resolution worded dotted located own
          · rw [isDeclared]
            exact nodup_loopVariables (nodup_loopVariablesBelow true reference.listDepth) false
          · intro number inner
            rw [isDeclared]
            exact List.mem_append_right _ (position_mem_below inner)
  | false =>
      simp only [isList, Bool.false_eq_true, if_false] at isCode
      cases isCode
      apply fitsIn_opened worded dotted
      · intro name isName
        exact mentions_ifBoth isTest_isPresent plain (plain.member (by decide)) isName _
      · intro _ number inner
        exact (mentions_resolutionBody worded dotted _ _ inner).block
      · intro blocks inScope areDeclared
        apply fitsIn_resolution worded dotted located (inScope.member worded.name)
        · rw [areDeclared]
          exact nodup_loopVariablesBelow true reference.listDepth
        · intro number inner
          rw [areDeclared]
          exact position_mem_below inner

end Reconcile.References
