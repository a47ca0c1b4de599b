import Reconcile.Proofs.Compare.Soundness
import Reconcile.Proofs.Compare.Worklist

/-!
# Definitions of helpers

What a text of helpers defines and what a text calls, read off the texts. The helpers that were
written are defined in their order (`definitionsIn_helpersText`), and what a text calls is
demanded by the checks that it was written from (`calledIn_body`, `calledIn_helpersText`).
-/

namespace Reconcile

namespace Line

/-- The name of the function that a line declares. -/
def declared? (text : String) : Option String :=
  if "func ".toList <+: text.toList then
    some (String.ofList ((text.toList.drop 5).takeWhile (· != '(')))
  else none

/-- The names of the functions that a text defines, in order. -/
def definitionsIn (text : String) : List String :=
  (readAll text).filterMap (fun line => declared? line.text)

/-- The names of the helper functions that a text calls or declares. -/
def calledIn (text : String) : List String :=
  (readAll text).flatMap (fun line => Term.helpersIn line.text)

theorem declared?_eq_none {text : String} (other : ¬"func ".toList <+: text.toList) :
    declared? text = none := if_neg other

theorem declared?_function {name : String} (word : Text.IsWord name) (rest : String) :
    declared? ("func " ++ name ++ "(" ++ rest) = some name := by
  have noCall : ∀ letter ∈ name.toList, (letter != '(') = true := by
    intro letter membership
    have separates : letter ≠ '(' := by
      rintro rfl
      exact word.not_mem (by decide) membership
    simpa using separates
  have front : "func ".toList <+: ("func " ++ name ++ "(" ++ rest).toList := by simp
  rw [declared?, if_pos front]
  simp [List.takeWhile_append_of_pos noCall]

end Line

theorem Emitted.declared?_eq_none {root : Site} {action : Site → String} {asked : Shape → Prop}
    {visited : Site → Prop} {blocks : List String} {text : String}
    (emitted : Emitted root action asked visited blocks text)
    (actions : ∀ site, Line.declared? (action site) = none) : Line.declared? text = none := by
  by_cases begins : "func ".toList <+: text.toList
  · rcases emitted.visited_of_start (by decide) begins with ⟨site, _, _, rfl⟩
    exact actions site
  · exact Line.declared?_eq_none begins

/-- A helper that a line of a comparison names is that of a shape that was asked for. -/
theorem Emitted.asked_of_namesHelper {root : Site} {action : Site → String}
    {asked : Shape → Prop} {visited : Site → Prop} {blocks : List String} {text helper : String}
    (emitted : Emitted root action asked visited blocks text) (wholeRoot : root.IsWhole)
    (words : ∀ shape, asked shape → Text.IsWord shape.name)
    (actions : ∀ site, Site.Reached root blocks site → ∀ term ∈ Term.ofLine (action site),
      term.Role root blocks asked (action site))
    (named : helper ∈ Term.helpersIn text) : ∃ shape, asked shape ∧ helper = shape.helperName := by
  rcases Term.mem_helpersIn.mp named with ⟨term, membership, namesHelper⟩
  rcases namesHelper with ⟨after, rfl, isHelper⟩
  cases emitted.role wholeRoot words actions membership with
  | inert inert => exact absurd ⟨after, rfl, isHelper⟩ (inert.not_namesHelper term.text)
  | reads site reached same noStar noCall => exact absurd after noCall
  | follows site reached isOpen same noCall => exact absurd after noCall
  | method site reached isOpen same noStar =>
      exfalso
      apply isHelper.2.not_mem (by decide : Text.isWordLetter '.' = false)
      simp [same]
  | helper site shape reached guarded known same noStar call => exact ⟨shape, known, same⟩

/-- The helpers that a body calls are demanded by its checks. -/
theorem Check.asked_of_calledIn {root : Site} {action : Site → String} {plain : Shape → Prop}
    {checks : List Check} {level : Nat} {name : String} (flat : IsFlat action)
    (sound : SoundOf root plain [] checks) (wholeRoot : root.IsWhole)
    (words : ∀ shape, plain shape → Text.IsWord shape.name)
    (roles : ∀ blocks site, Site.Reached root blocks site → ∀ term ∈ Term.ofLine (action site),
      term.Role root blocks (· ∈ Demand.shapes (demandsOf checks)) (action site))
    (actions : ∀ blocks site, Site.Reached root blocks site →
      ∀ level, Line.IsPlain ⟨level, action site⟩)
    (called : name ∈ Line.calledIn (Code.renderBehindBlank (codeOf action checks) level)) :
    ∃ shape ∈ Demand.shapes (demandsOf checks), name = shape.helperName := by
  rw [Line.calledIn, readAll_body flat sound wholeRoot words level actions] at called
  rcases List.mem_flatMap.mp called with ⟨line, membership, named⟩
  rcases (hold_body flat sound level).of_mem membership with ⟨blocks, same | emitted⟩
  · have none : Term.helpersIn "" = [] := by decide
    simp [same, none] at named
  · refine emitted.asked_of_namesHelper wholeRoot ?_ (roles blocks) named
    intro shape demanded
    exact words shape (plain_of_soundOf checks sound shape demanded)

namespace Equality

/-- The site of the parameters of a helper. -/
def Helper.root : Site := ⟨.empty, .root "a", .root "b"⟩

/-- The line that declares a helper. -/
def Helper.declaration (helper : Helper) : String :=
  "func " ++ helper.shape.helperName ++ "(a, b " ++ helper.shape.goType ++ ") bool" ++ " \x7b"

theorem isWord_helperName {shape : Shape} (word : Text.IsWord shape.name) :
    Text.IsWord shape.helperName := by
  have start : Text.IsWord "equal" := by decide
  exact start.append word

theorem Helper.declared?_declaration {helper : Helper} (word : Text.IsWord helper.shape.name) :
    Line.declared? helper.declaration = some helper.shape.helperName := by
  have same : helper.declaration = "func " ++ helper.shape.helperName ++ "(" ++
      ("a, b " ++ helper.shape.goType ++ ") bool" ++ " \x7b") := by
    simp [Helper.declaration, ← String.toList_inj]
  rw [same, Line.declared?_function (isWord_helperName word)]

theorem Helper.ofLine_declaration {helper : Helper} {fits : Shape → Prop}
    (plain : helper.shape.IsPlain fits) (word : Text.IsWord helper.shape.name) :
    Term.ofLine helper.declaration = [⟨'\n', "func", ' '⟩, ⟨' ', helper.shape.helperName, '('⟩,
      ⟨'(', "a", ','⟩, ⟨' ', "b", ' '⟩, ⟨'*', "svcapitypes." ++ helper.shape.name, ')'⟩,
      ⟨' ', "bool", ' '⟩] := by
  have function := Term.isWhole_of_isWord (isWord_helperName word)
  have nonempty : helper.shape.helperName ≠ "" := by simp [Shape.helperName]
  have package : Term.IsWhole "svcapitypes." := by decide
  have type : helper.shape.goType = "*" ++ ("svcapitypes." ++ helper.shape.name) := by
    rw [plain.goType, ← String.append_assoc]
    rfl
  have whole := package.append (Term.isWhole_of_isWord word)
  have named : "svcapitypes." ++ helper.shape.name ≠ "" := by simp
  generalize "svcapitypes." ++ helper.shape.name = typeName at type whole named ⊢
  simp [Term.ofLine, Helper.declaration, type, Term.scan_append function, Term.scan_append whole,
    Term.scan, Term.isLetter, Text.isWordLetter, Term.close, nonempty, named]

theorem Helper.helpersIn_declaration {helper : Helper} {fits : Shape → Prop} {name : String}
    (plain : helper.shape.IsPlain fits) (word : Text.IsWord helper.shape.name)
    (named : name ∈ Term.helpersIn helper.declaration) : name = helper.shape.helperName := by
  rcases Term.mem_helpersIn.mp named with ⟨term, membership, after, same, _⟩
  rw [ofLine_declaration plain word] at membership
  simp only [List.mem_cons, List.not_mem_nil, or_false] at membership
  rcases membership with rfl | rfl | rfl | rfl | rfl | rfl
  · simp at after
  · exact same.symm
  · simp at after
  · simp at after
  · simp at after
  · simp at after

/-- The lines of helpers with empty lines between them. -/
def helperLines (helpers : List Helper) : List Line :=
  [Line.blank].intercalate (helpers.map (fun helper => helper.code.lines 0))

theorem helpersText_eq (helpers : List Helper) :
    helpersText helpers = (Page.empty.write (helperLines helpers)).text := by
  have single : ∀ helper : Helper, (Code.render [helper.code] 0).toList =
      (helper.code.lines 0).flatMap (fun line => line.letters ++ ['\n']) := by
    intro helper
    simp [Code.render, Page.toList_write, Page.empty, Code.linesOf]
  rw [← String.toList_inj, Page.toList_write, helperLines, helpersText]
  induction helpers with
  | nil => simp [Page.empty]
  | cons helper rest ih =>
      cases rest with
      | nil => simp [single, Page.empty]
      | cons next others =>
          simp only [List.map_cons, String.intercalate_cons_cons, List.intercalate_cons_cons,
            String.toList_append, List.flatMap_append] at ih ⊢
          rw [ih, single]
          simp [Page.empty, Line.blank, Line.letters]

section

variable {property : List String → String → Prop}

theorem hold_helperLines {helpers : List Helper} (ofBlank : property [] "")
    (holds : ∀ helper ∈ helpers, helper.code.Holds property []) :
    Line.Hold property [] (helperLines helpers) := by
  unfold helperLines
  induction helpers with
  | nil => trivial
  | cons helper rest ih =>
      have others := ih (fun other inRest => holds other (List.mem_cons_of_mem _ inRest))
      rcases Code.hold_lines helper.code 0 (holds helper List.mem_cons_self) with ⟨first, closed⟩
      cases rest with
      | nil => simpa using first
      | cons next later =>
          simp only [List.map_cons, List.intercalate_cons_cons] at others ⊢
          rw [List.append_assoc, Line.hold_append, closed]
          exact ⟨first, ofBlank, others⟩

end

theorem filterMap_helperLines {helpers : List Helper} {reading : Line → Option String}
    {found : Helper → String} (ofBlank : reading Line.blank = none)
    (ofHelper : ∀ helper ∈ helpers, (helper.code.lines 0).filterMap reading = [found helper]) :
    (helperLines helpers).filterMap reading = helpers.map found := by
  unfold helperLines
  induction helpers with
  | nil => rfl
  | cons helper rest ih =>
      have first := ofHelper helper List.mem_cons_self
      have others := ih (fun other inRest => ofHelper other (List.mem_cons_of_mem _ inRest))
      cases rest with
      | nil => simpa using first
      | cons next later =>
          simp only [List.map_cons, List.intercalate_cons_cons] at others ⊢
          simp [first, others, ofBlank]

/-- The lines of helpers. -/
inductive HelperLine (helpers : List Helper) (blocks : List String) (text : String) : Prop
  | blank (same : text = "")
  | declares (helper : Helper) (isWritten : helper ∈ helpers) (same : text = helper.declaration)
  | compares (emitted : Emitted Helper.root action
      (fun shape => ∃ helper ∈ helpers, shape ∈ helper.asked) (fun _ => True) blocks text)
  | ends (same : text = "return true")

section

variable {normalizer : Normalizer} {fits : Shape → Prop} {shape : Shape} {helpers : List Helper}

theorem isFlat_action : Check.IsFlat action := by
  intro site
  exact ⟨by simp [action, Line.closes], by simp [action, Line.opens]⟩

theorem role_action {root : Site} {blocks : List String} {asked : Shape → Prop} (site : Site) :
    ∀ term ∈ Term.ofLine (action site), term.Role root blocks asked (action site) := by
  have inert : ∀ term ∈ Term.ofLine "return false", term.IsInert := by decide
  intro term membership
  exact .inert (inert term membership)

theorem isPlain_action {level : Nat} {site : Site} : Line.IsPlain ⟨level, action site⟩ := by
  simp [Line.IsPlain, action]

theorem soundOf_helper (inherited : Shape.Inherited normalizer fits) (plain : shape.IsPlain fits)
    (blocks : List String) :
    Check.SoundOf Helper.root (Shape.IsPlain fits) blocks
      (Helper.ofShape normalizer shape).checks := by
  apply Strategy.soundOf_body (isSound_strategyWith normalizer _ _) inherited
  · simp [Helper.root, FieldPath.empty]
  · exact plain.1
  · exact .root
  · intro _
    exact Or.inl ⟨rfl, rfl⟩

theorem holds_helper (inherited : Shape.Inherited normalizer fits) (plain : shape.IsPlain fits)
    (isWritten : Helper.ofShape normalizer shape ∈ helpers) :
    (Helper.ofShape normalizer shape).code.Holds (HelperLine helpers) [] := by
  refine ⟨by simp [Line.closes], .declares _ isWritten rfl, ?_, .compares .close⟩
  rw [Code.holdsOf_append]
  constructor
  · apply Code.HoldsOf.mono (fun _ _ emitted => .compares emitted)
    apply Check.holdsOf_codeOf isFlat_action
    · exact soundOf_helper inherited plain _
    · intro inner isAsked
      exact ⟨_, isWritten, isAsked⟩
    · simp
  · exact ⟨⟨by simp [Line.closes], by simp [Line.opens], .ends rfl⟩, trivial⟩

theorem declared?_body (inherited : Shape.Inherited normalizer fits)
    (plain : shape.IsPlain fits) (level : Nat) :
    ∀ line ∈ Code.linesOf (Check.codeOf action (Helper.ofShape normalizer shape).checks ++
      [.line "return true"]) level, Line.declared? line.text = none := by
  have declaresNothing : ∀ site, Line.declared? (action site) = none := by
    intro site
    exact Line.declared?_eq_none (by simp [action])
  have holds : Code.HoldsOf (fun _ text => Line.declared? text = none) []
      (Check.codeOf action (Helper.ofShape normalizer shape).checks ++ [.line "return true"]) := by
    rw [Code.holdsOf_append]
    constructor
    · refine Code.HoldsOf.mono ?_ _ (Check.holdsOf_codeOf isFlat_action _
        (soundOf_helper inherited plain []) (fun inner isAsked => isAsked)
        (fun site isVisited => isVisited))
      intro blocks text emitted
      exact emitted.declared?_eq_none declaresNothing
    · exact ⟨⟨by simp [Line.closes], by simp [Line.opens], Line.declared?_eq_none (by simp)⟩,
        trivial⟩
  intro line membership
  rcases (Code.hold_linesOf _ level holds).1.of_mem membership with ⟨blocks, none⟩
  exact none

end

/-- Helpers that were written for plain shapes whose names are words. -/
structure PlainHelpers (normalizer : Normalizer) (fits : Shape → Prop) (helpers : List Helper) :
    Prop where
  inherited : Shape.Inherited normalizer fits
  words : ∀ shape : Shape, shape.IsPlain fits → Text.IsWord shape.name
  plain : ∀ helper ∈ helpers, helper.shape.IsPlain fits
  ofShape : ∀ helper ∈ helpers, helper = Helper.ofShape normalizer helper.shape

namespace PlainHelpers

variable {normalizer : Normalizer} {fits : Shape → Prop} {helpers : List Helper}

theorem isWord_asked (planned : PlainHelpers normalizer fits helpers) :
    ∀ shape, (∃ helper ∈ helpers, shape ∈ helper.asked) → Text.IsWord shape.name := by
  rintro shape ⟨helper, membership, isAsked⟩
  rw [planned.ofShape helper membership] at isAsked
  have sound := soundOf_helper planned.inherited (planned.plain helper membership) []
  exact planned.words shape (Check.plain_of_soundOf _ sound shape isAsked)

theorem isWhole_root : Helper.root.IsWhole := by
  have first : Term.IsWhole "a" := by decide
  have second : Term.IsWhole "b" := by decide
  exact ⟨first, second⟩

theorem hold (planned : PlainHelpers normalizer fits helpers) :
    Line.Hold (HelperLine helpers) [] (helperLines helpers) := by
  apply hold_helperLines (.blank rfl)
  intro helper membership
  have isWritten := membership
  rw [planned.ofShape helper membership] at isWritten ⊢
  exact holds_helper planned.inherited (planned.plain helper membership) isWritten

theorem isPlain_line (planned : PlainHelpers normalizer fits helpers) {blocks : List String}
    {line : Line} (isLine : HelperLine helpers blocks line.text) : line.IsPlain := by
  cases isLine with
  | blank same => simp [Line.IsPlain, same]
  | declares helper isWritten same =>
      have plain := planned.plain helper isWritten
      have name : '\n' ∉ helper.shape.name.toList :=
        (planned.words helper.shape plain).not_mem (by decide)
      simp [Line.IsPlain, same, Helper.declaration, Shape.helperName, plain.goType, name]
  | compares emitted =>
      exact emitted.isPlain isWhole_root planned.isWord_asked
        (fun site _ => isPlain_action)
  | ends same => simp [Line.IsPlain, same]

theorem readAll (planned : PlainHelpers normalizer fits helpers) :
    Line.readAll (helpersText helpers) = helperLines helpers := by
  rw [helpersText_eq]
  apply Line.readAll_write
  intro line membership
  rcases planned.hold.of_mem membership with ⟨blocks, isLine⟩
  exact planned.isPlain_line isLine

theorem definitionsIn (planned : PlainHelpers normalizer fits helpers) :
    Line.definitionsIn (helpersText helpers) =
      helpers.map (fun helper => helper.shape.helperName) := by
  have ofHelper : ∀ helper ∈ helpers,
      (helper.code.lines 0).filterMap (fun line => Line.declared? line.text) =
        [helper.shape.helperName] := by
    intro helper membership
    have plain := planned.plain helper membership
    have inBody := declared?_body planned.inherited plain 1
    rw [← planned.ofShape helper membership] at inBody
    have bodyNone := List.filterMap_eq_nil_iff.mpr inBody
    have declares := helper.declared?_declaration (planned.words helper.shape plain)
    have ends : Line.declared? "\x7d" = none := by decide
    have lines : helper.code.lines 0 = ⟨0, helper.declaration⟩ ::
        (Code.linesOf (Check.codeOf action helper.checks ++ [.line "return true"]) 1 ++
          [⟨0, "\x7d"⟩]) := rfl
    simp [lines, declares, bodyNone, ends]
  rw [Line.definitionsIn, planned.readAll]
  exact filterMap_helperLines (by decide) ofHelper

/-- What helpers call has been asked for by one of them, and what they declare is one of them. -/
theorem calledIn (planned : PlainHelpers normalizer fits helpers) {name : String}
    (called : name ∈ Line.calledIn (helpersText helpers)) :
    ∃ shape, (∃ helper ∈ helpers, shape ∈ helper.asked ∨ shape = helper.shape) ∧
      name = shape.helperName := by
  rw [Line.calledIn, planned.readAll] at called
  rcases List.mem_flatMap.mp called with ⟨line, membership, named⟩
  rcases planned.hold.of_mem membership with ⟨blocks, isLine⟩
  cases isLine with
  | blank same =>
      have none : Term.helpersIn "" = [] := by decide
      simp [same, none] at named
  | declares helper isWritten same =>
      refine ⟨helper.shape, ⟨helper, isWritten, Or.inr rfl⟩, ?_⟩
      have plain := planned.plain helper isWritten
      rw [same] at named
      exact helper.helpersIn_declaration plain (planned.words helper.shape plain) named
  | compares emitted =>
      rcases emitted.asked_of_namesHelper isWhole_root planned.isWord_asked
        (fun site _ => role_action site) named with ⟨shape, ⟨helper, isWritten, isAsked⟩, same⟩
      exact ⟨shape, ⟨helper, isWritten, Or.inl isAsked⟩, same⟩
  | ends same =>
      have none : Term.helpersIn "return true" = [] := by decide
      simp [same, none] at named

end PlainHelpers

end Equality

end Reconcile
