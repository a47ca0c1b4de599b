import Reconcile.Proofs.References.Absence
import Reconcile.Proofs.References.Targets

/-!
# Values of other resources

The code that resolves a reference copies a value out of another resource. In front of the line that
copies it, in the same block, the code returns if a step on the way to the value is absent, or the
value itself, and no other line copies a value (`References.copied_behind_check`).
-/

namespace Reconcile

theorem Code.linesOf_flatten (codes : List (List Code)) (level : Nat) :
    linesOf codes.flatten level = (codes.map (fun code => linesOf code level)).flatten := by
  induction codes with
  | nil => rfl
  | cons code rest ih =>
      rw [List.flatten_cons, linesOf_append, ih, List.map_cons, List.flatten_cons]

namespace References

open Reference

variable {reference : Reference} {object target value text : String} {level : Nat}

/-! ### Lines that copy -/

/-- A line that copies a value to a target, or to the end of a list there. -/
inductive Copies (target value : String) : String → Prop
  | assigned (type : String) :
      Copies target value (target ++ " = (" ++ type ++ ")(" ++ value ++ ")")
  | appended (type : String) :
      Copies target value
        (target ++ " = append(" ++ target ++ ", (" ++ type ++ ")(" ++ value ++ "))")

/-- Whether a line copies no value of another resource that names lead to. -/
def CopiesNothing (text : String) : Prop :=
  ∀ target path, Text.IsDotted path → ¬Copies target ("obj." ++ path) text

theorem Copies.exists_closing (copies : Copies target value text) :
    ∃ front closing, text = front ++ (value ++ closing) ∧ (closing = ")" ∨ closing = "))") := by
  cases copies with
  | assigned type =>
      exact ⟨target ++ " = (" ++ type ++ ")(", ")", String.append_assoc .., Or.inl rfl⟩
  | appended type =>
      exact ⟨target ++ " = append(" ++ target ++ ", (" ++ type ++ ")(", "))",
        String.append_assoc .., Or.inr rfl⟩

theorem copiesNothing_of_last (last : text.toList.getLast? ≠ some ')') : CopiesNothing text := by
  intro target path _ copies
  apply last
  rcases copies.exists_closing with ⟨front, closing, rfl, isClosing⟩
  rw [String.toList_append, String.toList_append, List.getLast?_append, List.getLast?_append]
  rcases isClosing with rfl | rfl <;> rfl

/-- The last letters of a line that copies are those of the value, and parentheses. -/
theorem copiesNothing_of_ending {ending : String} {letter : Char}
    (ends : ending.toList <:+ text.toList) (short : ending.toList.length ≤ 5)
    (inside : letter ∈ ending.toList)
    (strange : Text.isWordLetter letter = false ∧ letter ≠ '.' ∧ letter ≠ ')') :
    CopiesNothing text := by
  intro target path dotted copies
  rcases strange with ⟨noWord, noDot, noParenthesis⟩
  rcases copies.exists_closing with ⟨front, closing, rfl, isClosing⟩
  have inValue : letter ∉ ("obj." ++ path).toList :=
    (Text.IsDotted.append (by decide) dotted).not_mem noWord noDot
  have inClosing : letter ∉ closing.toList := by
    rcases isClosing with rfl | rfl <;> simpa using noParenthesis
  have long : 5 ≤ ("obj." ++ path ++ closing).toList.length := by
    rcases isClosing with rfl | rfl <;> simp
  have whole : ("obj." ++ path ++ closing).toList <:+
      (front ++ ("obj." ++ path ++ closing)).toList := ⟨front.toList, String.toList_append.symm⟩
  -- Both end the same line, so that the shorter one lies within the longer one.
  have isLetter := (List.suffix_of_suffix_length_le ends whole (short.trans long)).subset inside
  rw [String.toList_append, List.mem_append] at isLetter
  exact isLetter.elim inValue inClosing

theorem copiesNothing_header (header : String) : CopiesNothing (header ++ " \x7b") :=
  copiesNothing_of_last (by simp)

theorem copiesNothing_end : CopiesNothing "\x7d" :=
  copiesNothing_of_last (by decide)

/-- A message stands in quotes at the end of its line. -/
theorem copiesNothing_message (front : String) : CopiesNothing (front ++ "\")") :=
  copiesNothing_of_ending ⟨front.toList, String.toList_append.symm⟩ (by decide)
    List.mem_cons_self (by decide)

theorem copiesNothing_make (front : String) : CopiesNothing (front ++ ", 0, 1)") := by
  have ends : " 1)".toList <:+ (front ++ ", 0, 1)").toList := ⟨(front ++ ", 0,").toList, by simp⟩
  exact copiesNothing_of_ending ends (by decide) List.mem_cons_self (by decide)

/-! ### Checks in front of copies -/

/-- The lines of a block that runs a statement under a condition. -/
def runIf (level : Nat) (condition statement : String) : List Line :=
  [⟨level, "if " ++ condition ++ " \x7b"⟩, ⟨level + 1, statement⟩, ⟨level, "\x7d"⟩]

/--
Whether lines return if the value at a path in the other resource or a step to it is absent, and
then stay in the block of the return up to a line at its level.
-/
inductive ReturnsIfAbsent (path : String) (level : Nat) : List Line → Prop
  | intro (before between : List Line) {pieces : List String} {statement : String}
      (isCut : Text.IsCutAtDots path pieces) (deep : 2 ≤ pieces.length)
      (returns : "return ".toList <+: statement.toList)
      (inBlock : ∀ line ∈ between, level ≤ line.level) :
      ReturnsIfAbsent path level
        (before ++ runIf level (" || ".intercalate (absenceTests "obj" pieces)) statement ++ between)

/--
Whether exactly one of the lines copies a value of another resource: it is the value of the
reference, it goes to its field, and the lines in front of it return if it is absent.
-/
inductive CopiedBehindCheck (object : String) (reference : Reference) : List Line → Prop
  | intro (earlier later : List Line) {line : Line}
      (copies : Copies (reference.concrete object).text reference.source line.text)
      (checked : ReturnsIfAbsent reference.settings.path line.level earlier)
      (alone : ∀ other ∈ earlier ++ later, CopiesNothing other.text) :
      CopiedBehindCheck object reference (earlier ++ line :: later)

theorem ReturnsIfAbsent.extend {path : String} {lines : List Line}
    (checked : ReturnsIfAbsent path level lines) (front : List Line) :
    ReturnsIfAbsent path level (front ++ lines) := by
  rcases checked with ⟨before, between, isCut, deep, returns, inBlock⟩
  have extended := ReturnsIfAbsent.intro (front ++ before) between isCut deep returns inBlock
  simpa using extended

theorem CopiedBehindCheck.block {lines : List Line}
    (copied : CopiedBehindCheck object reference lines) (level : Nat) (header : String) :
    CopiedBehindCheck object reference
      (⟨level, header ++ " \x7b"⟩ :: (lines ++ [⟨level, "\x7d"⟩])) := by
  rcases copied with ⟨earlier, later, copies, checked, alone⟩
  rcases List.forall_mem_append.mp alone with ⟨before, behind⟩
  rw [List.append_assoc, List.cons_append, ← List.cons_append]
  refine .intro _ _ copies (checked.extend [⟨level, header ++ " \x7b"⟩]) ?_
  rw [List.forall_mem_append, List.forall_mem_cons, List.forall_mem_append,
    List.forall_mem_singleton]
  exact ⟨⟨copiesNothing_header header, before⟩, behind, copiesNothing_end⟩

theorem CopiedBehindCheck.nest {body : List Code}
    (copied : ∀ level, CopiedBehindCheck object reference (Code.linesOf body level))
    (headers : List String) (level : Nat) :
    CopiedBehindCheck object reference (Code.linesOf (Code.nest headers body) level) := by
  induction headers generalizing level with
  | nil => exact copied level
  | cons header rest ih =>
      rw [Code.nest_cons, Code.linesOf, Code.lines, Code.linesOf, List.append_nil]
      exact (ih (level + 1)).block level header

/-! ### Resolution -/

/-- Only the list that takes the value is made in front of the line that copies the value. -/
theorem exists_linesOf_assignment (object : String) (reference : Reference) (level : Nat) :
    ∃ between copy, Code.linesOf (assignment object reference
        (.member (.root "obj") reference.settings.path)) level = between ++ [⟨level, copy⟩] ∧
      Copies (reference.concrete object).text reference.source copy ∧
      (∀ line ∈ between, level ≤ line.level) ∧ ∀ line ∈ between, CopiesNothing line.text := by
  cases isList : reference.isList with
  | true =>
      rcases exists_element isList with ⟨name, element, isShape⟩
      have lines : ∀ make copy, Code.linesOf [(reference.concrete object).ifAbsent make,
          .line copy] level =
            runIf level (reference.concrete object).isAbsent make ++ [⟨level, copy⟩] :=
        fun _ _ => rfl
      rw [assignment, isShape]
      refine ⟨_, _, lines _ _, .appended element.goType, by simp [runIf], ?_⟩
      rw [runIf, List.forall_mem_cons, List.forall_mem_cons, List.forall_mem_singleton]
      exact ⟨copiesNothing_header _, copiesNothing_make _, copiesNothing_end⟩
  | false =>
      rw [assignment_single isList]
      exact ⟨[], _, rfl, .assigned reference.field.shape.goType, by simp, by simp⟩

theorem copiesNothing_state (path : String) (skip : Bool) (level : Nat) :
    ∀ line ∈ Code.linesOf (if skip then [] else [
      .block "if !ackcondition.IsSynced(obj)" [
        .line ("ackrtlog.FromContext(ctx).Debug(\"referenced resource is not synced\", " ++
          "\"reference\", \"" ++ path ++ "\")")]]) level, CopiesNothing line.text := by
  split
  · simp [Code.linesOf]
  · simp only [Code.linesOf, Code.lines, List.append_nil, List.cons_append, List.nil_append,
      List.forall_mem_cons, List.not_mem_nil, false_imp_iff, implies_true, and_true]
    exact ⟨copiesNothing_header _, copiesNothing_message _, copiesNothing_end⟩

/-- What is done for a reference that is set. -/
theorem copied_resolutionBody {access : Access} {check : String}
    (located : reference.settings.absenceCheck "obj" = .ok check) (level : Nat) :
    CopiedBehindCheck object reference
      (Code.linesOf (resolutionBody object reference access check) level) := by
  rcases absenceCheck_eq_ok.mp located with ⟨pieces, isCut, deep, _, rfl⟩
  rcases exists_linesOf_assignment object reference level with
    ⟨between, copy, lines, copies, inBlock, quiet⟩
  rw [resolutionBody, Code.linesOf_append, Code.linesOf_append, lines, ← List.append_assoc]
  refine .intro _ [] copies (.intro _ between isCut deep (by simp) inBlock) ?_
  rw [List.append_nil, Code.linesOf_append]
  simp only [Code.linesOf, Code.lines, List.append_nil, List.cons_append, List.nil_append,
    List.forall_mem_append, List.forall_mem_cons, List.not_mem_nil, false_imp_iff, implies_true,
    and_true]
  exact ⟨copiesNothing_of_last (by decide),
    copiesNothing_of_last (by simp [Access.text, List.getLast?_cons]), copiesNothing_header _,
    copiesNothing_message _, copiesNothing_end,
    copiesNothing_of_last (by simp [List.getLast?_cons]), copiesNothing_header _,
    copiesNothing_of_last (by decide), copiesNothing_end,
    ⟨copiesNothing_state _ _ level, copiesNothing_header _, copiesNothing_message _,
      copiesNothing_end⟩, quiet⟩

theorem copied_resolutionCode {code : List Code}
    (done : resolutionCode object reference = .ok code) (level : Nat) :
    CopiedBehindCheck object reference (Code.linesOf code level) := by
  rcases Outcome.of_bind_eq_ok done with ⟨check, located, written⟩
  have inside : ∀ access header level, CopiedBehindCheck object reference
      (Code.linesOf [.block header (resolutionBody object reference access check)] level) :=
    fun access header => CopiedBehindCheck.nest (copied_resolutionBody located) [header]
  cases written
  exact CopiedBehindCheck.nest (inside _ _) _ level

/--
The condition that the value of a reference is absent can be written if the path of the value has at
least two pieces between its dots and none of them is empty. It has one test for each leading part
of the path with two pieces or more, the shortest first, and the last one is that of the whole path.
In all code that resolves references, the value of each reference is copied to its field once,
behind a return under this condition, and nothing else is copied.
-/
theorem copied_behind_check :
    (∀ (settings : ReferenceSettings) (object : String),
      ((∃ check, settings.absenceCheck object = .ok check) ↔
        ∃ pieces, Text.IsCutAtDots settings.path pieces ∧ 2 ≤ pieces.length ∧ "" ∉ pieces) ∧
      ∀ check, settings.absenceCheck object = .ok check →
        ∃ pieces, Text.IsCutAtDots settings.path pieces ∧
          check = " || ".intercalate (absenceTests object pieces) ∧
          (absenceTests object pieces).getLast? =
            some (object ++ "." ++ settings.path ++ " == nil")) ∧
    ∀ (resource : Resource) (object text : String) (level : Nat),
      resolve resource object level = .ok text →
        ∃ references lines, Reference.all resource = .ok references ∧
          text = (Page.empty.write lines.flatten).text ∧
          List.Forall₂ (CopiedBehindCheck object) references lines := by
  constructor
  · intro settings object
    refine ⟨exists_absenceCheck_eq_ok, ?_⟩
    intro check located
    rcases absenceCheck_eq_ok.mp located with ⟨pieces, isCut, deep, _, isCheck⟩
    exact ⟨pieces, isCut, isCheck, getLast?_absenceTests isCut deep⟩
  · intro resource object text level resolved
    rcases Outcome.of_bind_eq_ok resolved with ⟨references, collected, resolved⟩
    rcases Outcome.of_bind_eq_ok resolved with ⟨codes, written, resolved⟩
    cases resolved
    refine ⟨references, codes.map (fun code => Code.linesOf code level), collected, ?_, ?_⟩
    · rw [← Code.linesOf_flatten]
      rfl
    · rw [List.forall₂_map_right_iff]
      exact (Outcome.forall₂_of_mapM_eq_ok written).imp
        (fun _ _ done => copied_resolutionCode done level)

/-- A value below a structure has two tests, and a root alone has none. -/
theorem copied_behind_check_network :
    let settings : ReferenceSettings := {
      resource := "Key", service := none, path := "Status.Metadata.ARN", skipStateCheck := false }
    settings.absenceCheck "obj" =
        .ok "obj.Status.Metadata == nil || obj.Status.Metadata.ARN == nil" ∧
      (¬∃ check, { settings with path := "Status" }.absenceCheck "obj" = .ok check) ∧
      ∃ resource text, Resource.ofDefinition networkDefinition networkReferences .default =
          .ok resource ∧ resolve resource "ko" 1 = .ok text ∧
        ∃ references lines, Reference.all resource = .ok references ∧
          references.map Reference.source = ["obj.Status.ID", "obj.Status.SubnetID"] ∧
          text = (Page.empty.write lines.flatten).text ∧
          List.Forall₂ (CopiedBehindCheck "ko") references lines := by
  intro settings
  refine ⟨?_, ?_, ?_⟩
  · have isCut : Text.IsCutAtDots settings.path ["Status", "Metadata", "ARN"] :=
      ⟨by decide, by decide, by decide⟩
    rcases (copied_behind_check.1 settings "obj").1.mpr ⟨_, isCut, by decide, by decide⟩ with
      ⟨check, located⟩
    rcases (copied_behind_check.1 settings "obj").2 check located with ⟨pieces, isCutToo, rfl, _⟩
    have same : pieces = ["Status", "Metadata", "ARN"] := isCutToo.split_eq.symm.trans isCut.split_eq
    rw [located, same]
    decide +kernel
  · rw [(copied_behind_check.1 _ _).1]
    rintro ⟨pieces, isCut, deep, _⟩
    rw [← isCut.split_eq] at deep
    exact absurd deep (by decide)
  · have facts : ∃ resource ∈
          (Resource.ofDefinition networkDefinition networkReferences .default).toOption,
        (resolve resource "ko" 1).toOption.isSome = true ∧
          ∃ references ∈ (Reference.all resource).toOption,
            references.map Reference.source = ["obj.Status.ID", "obj.Status.SubnetID"] := by
      decide +kernel
    rcases facts with ⟨resource, made, resolves, listed, isAll, sources⟩
    rcases Option.isSome_iff_exists.mp resolves with ⟨text, written⟩
    have resolved := Outcome.of_mem_toOption written
    rcases copied_behind_check.2 resource "ko" text 1 resolved with
      ⟨references, lines, collected, isText, copied⟩
    have same : references = listed :=
      Except.ok.inj (collected.symm.trans (Outcome.of_mem_toOption isAll))
    exact ⟨resource, text, Outcome.of_mem_toOption made, resolved, references, lines, collected,
      same ▸ sources, isText, copied⟩

end References

end Reconcile
