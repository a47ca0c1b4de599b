import Reconcile.Proofs.Compare.Emission
import Reconcile.Proofs.Compare.LineTerms

/-!
# Roles of terms

Each term in a line of a comparison is one of five: a word of the language, the expression of a
site that is read, one that is followed as a pointer, the method `Equal` of one, or a helper
function. The role says what is known of the site, so what a line does to values is read off
its terms without looking at its form again (`Emitted.role`).
-/

namespace Reconcile

open Term

namespace Site

/-- Whether the expressions of a site lie within one term each. -/
def IsWhole (site : Site) : Prop :=
  Term.IsWhole site.first.text ∧ Term.IsWhole site.second.text

theorem Reached.isWhole {root site : Site} {blocks : List String} (wholeRoot : root.IsWhole)
    (reached : Reached root blocks site) : site.IsWhole := by
  have dot : Term.IsWhole "." := by decide
  have leftBracket : Term.IsWhole "[" := by decide
  have rightBracket : Term.IsWhole "]" := by decide
  induction reached with
  | root => exact wholeRoot
  | member _ _ word _ ih =>
      have name := isWhole_of_isWord word
      exact ⟨(ih.1.append dot).append name, (ih.2.append dot).append name⟩
  | index _ word ih =>
      have position := isWhole_of_isWord word
      exact ⟨((ih.1.append leftBracket).append position).append rightBracket,
        ((ih.2.append leftBracket).append position).append rightBracket⟩
  | held _ _ =>
      have firstWhole : Term.IsWhole "av" := by decide
      have secondWhole : Term.IsWhole "bv" := by decide
      exact ⟨firstWhole, secondWhole⟩

end Site

/-- What a term in a line stands for. -/
inductive Term.Role (root : Site) (blocks : List String) (asked : Shape → Prop) (line : String)
    (term : Term) : Prop
  | inert (inert : term.IsInert)
  | reads (site : Site) (reached : Site.Reached root blocks site)
      (same : term.text = site.first.text ∨ term.text = site.second.text)
      (noStar : term.before ≠ '*') (noCall : term.after ≠ '(')
  | follows (site : Site) (reached : Site.Reached root blocks site)
      (isOpen : site.IsOpen root blocks)
      (same : term.text = site.first.text ∨ term.text = site.second.text)
      (noCall : term.after ≠ '(')
  | method (site : Site) (reached : Site.Reached root blocks site)
      (isOpen : site.IsOpen root blocks) (same : term.text = site.first.text ++ ".Equal")
      (noStar : term.before ≠ '*')
  | helper (site : Site) (shape : Shape) (reached : Site.Reached root blocks site)
      (guarded : site.presentHeader ∈ blocks) (known : asked shape)
      (same : term.text = shape.helperName) (noStar : term.before ≠ '*')
      (call : line = "if " ++ (Test.helper shape).condition site ++ " \x7b")

section

variable {root site : Site} {blocks : List String} {asked : Shape → Prop} {line : String}
  {term : Term}

theorem Term.Role.first {before after : Char} (reached : Site.Reached root blocks site)
    (noStar : before ≠ '*') (noCall : after ≠ '(')
    (membership : term ∈ close before site.first.text.toList after) :
    term.Role root blocks asked line := by
  rcases mem_close.mp membership with ⟨_, rfl⟩
  exact .reads site reached (Or.inl String.ofList_toList) noStar noCall

theorem Term.Role.second {before after : Char} (reached : Site.Reached root blocks site)
    (noStar : before ≠ '*') (noCall : after ≠ '(')
    (membership : term ∈ close before site.second.text.toList after) :
    term.Role root blocks asked line := by
  rcases mem_close.mp membership with ⟨_, rfl⟩
  exact .reads site reached (Or.inr String.ofList_toList) noStar noCall

/-- A line that calls a function with both sides of a site. -/
theorem Term.Role.of_call (start : Char) (function : String)
    (reached : Site.Reached root blocks site)
    (terms : ofLine line = [⟨'\n', "if", ' '⟩, ⟨start, function, '('⟩] ++
      (close '(' site.first.text.toList ',' ++ close ' ' site.second.text.toList ')'))
    (functionRole : Term.Role root blocks asked line ⟨start, function, '('⟩)
    (membership : term ∈ ofLine line) : term.Role root blocks asked line := by
  rw [terms] at membership
  simp only [List.mem_append, List.mem_cons, List.not_mem_nil, or_false] at membership
  rcases membership with (rfl | rfl) | first | second
  · exact .inert (by decide)
  · exact functionRole
  · exact .first reached (by decide) (by decide) first
  · exact .second reached (by decide) (by decide) second

/-- A line of words of the language around the expression of one side. -/
theorem Term.Role.of_words {operand : String} (words : List Term) (before after : Char)
    (others : List Term) (reached : Site.Reached root blocks site)
    (same : operand = site.first.text ∨ operand = site.second.text)
    (terms : ofLine line = words ++ close before operand.toList after ++ others)
    (inert : ∀ word ∈ words ++ others, word.IsInert) (noStar : before ≠ '*') (noCall : after ≠ '(')
    (membership : term ∈ ofLine line) : term.Role root blocks asked line := by
  rw [terms, List.mem_append, List.mem_append] at membership
  rcases membership with (word | read) | other
  · exact .inert (inert term (List.mem_append_left _ word))
  · rcases same with rfl | rfl
    · exact .first reached noStar noCall read
    · exact .second reached noStar noCall read
  · exact .inert (inert term (List.mem_append_right _ other))

end

namespace Test

variable {root site : Site} {blocks : List String} {asked : Shape → Prop} {term : Term}

theorem condition_timestamp : (Test.scalar .timestamp).condition site =
    "!" ++ site.first.text ++ ".Equal(" ++ site.second.text ++ ")" := rfl

theorem condition_blob : (Test.scalar .blob).condition site =
    "!bytes.Equal(" ++ site.first.text ++ ", " ++ site.second.text ++ ")" := rfl

theorem condition_follow {kind : ScalarKind} (noTimestamp : kind ≠ .timestamp)
    (noBlob : kind ≠ .blob) : (Test.scalar kind).condition site =
      "*" ++ site.first.text ++ " != *" ++ site.second.text := by
  cases kind with
  | timestamp => exact absurd rfl noTimestamp
  | blob => exact absurd rfl noBlob
  | string => rfl
  | integer => rfl
  | float => rfl
  | boolean => rfl

theorem condition_whole : Test.whole.condition site =
    "!equality.Semantic.Equalities.DeepEqual(" ++ site.first.text ++ ", " ++ site.second.text ++
      ")" := rfl

theorem condition_length : Test.length.condition site =
    "len(" ++ site.first.text ++ ") != len(" ++ site.second.text ++ ")" := rfl

theorem condition_textList : Test.textList.condition site =
    "!ackcompare.SliceStringPEqual(" ++ site.first.text ++ ", " ++ site.second.text ++ ")" := rfl

theorem condition_textMap : Test.textMap.condition site =
    "!ackcompare.MapStringStringPEqual(" ++ site.first.text ++ ", " ++ site.second.text ++ ")" :=
  rfl

theorem condition_helper (shape : Shape) : (Test.helper shape).condition site =
    "!" ++ shape.helperName ++ "(" ++ site.first.text ++ ", " ++ site.second.text ++ ")" := rfl

/-- Only the comparison of blobs follows no pointer. -/
theorem IsSafe.isOpen {kind : ScalarKind} (safe : (Test.scalar kind).IsSafe root blocks site)
    (noBlob : kind ≠ .blob) : site.IsOpen root blocks := by
  cases kind with
  | blob => exact absurd rfl noBlob
  | timestamp => exact safe
  | string => exact safe
  | integer => exact safe
  | float => exact safe
  | boolean => exact safe

theorem role_follow (reached : Site.Reached root blocks site) (whole : site.IsWhole)
    (isOpen : site.IsOpen root blocks)
    (membership : term ∈ ofLine
      ("if " ++ ("*" ++ site.first.text ++ " != *" ++ site.second.text) ++ " \x7b")) :
    term.Role root blocks asked
      ("if " ++ ("*" ++ site.first.text ++ " != *" ++ site.second.text) ++ " \x7b") := by
  rw [ofLine_follow whole.1 whole.2] at membership
  simp only [List.mem_append, List.mem_singleton] at membership
  rcases membership with rfl | first | second
  · exact .inert (by decide)
  · rcases mem_close.mp first with ⟨_, rfl⟩
    exact .follows site reached isOpen (Or.inl String.ofList_toList) (by simp)
  · rcases mem_close.mp second with ⟨_, rfl⟩
    exact .follows site reached isOpen (Or.inr String.ofList_toList) (by simp)

theorem role_method (reached : Site.Reached root blocks site) (whole : site.IsWhole)
    (isOpen : site.IsOpen root blocks)
    (membership : term ∈ ofLine
      ("if " ++ ("!" ++ site.first.text ++ ".Equal(" ++ site.second.text ++ ")") ++ " \x7b")) :
    term.Role root blocks asked
      ("if " ++ ("!" ++ site.first.text ++ ".Equal(" ++ site.second.text ++ ")") ++ " \x7b") := by
  rw [ofLine_method whole.1 whole.2] at membership
  simp only [List.mem_append, List.mem_cons, List.not_mem_nil, or_false] at membership
  rcases membership with (rfl | rfl) | second
  · exact .inert (by decide)
  · exact .method site reached isOpen rfl (by simp)
  · exact .second reached (by decide) (by decide) second

/-- The terms of a test and their roles. -/
theorem role {test : Test} (reached : Site.Reached root blocks site) (whole : site.IsWhole)
    (safe : test.IsSafe root blocks site) (known : ∀ shape, test = .helper shape → asked shape)
    (words : ∀ shape, asked shape → Text.IsWord shape.name)
    (membership : term ∈ ofLine ("if " ++ test.condition site ++ " \x7b")) :
    term.Role root blocks asked ("if " ++ test.condition site ++ " \x7b") := by
  cases test with
  | scalar kind =>
      by_cases isBlob : kind = .blob
      · subst isBlob
        exact .of_call '!' "bytes.Equal" reached (ofLine_blob whole.1 whole.2)
          (.inert (by decide)) membership
      · have isOpen := safe.isOpen isBlob
        by_cases isTimestamp : kind = .timestamp
        · subst isTimestamp
          rw [condition_timestamp] at membership ⊢
          exact role_method reached whole isOpen membership
        · rw [condition_follow isTimestamp isBlob] at membership ⊢
          exact role_follow reached whole isOpen membership
  | whole =>
      exact .of_call '!' "equality.Semantic.Equalities.DeepEqual" reached
        (ofLine_whole whole.1 whole.2) (.inert (by decide)) membership
  | length =>
      rw [condition_length, ofLine_length whole.1 whole.2] at membership
      simp only [List.mem_append, List.mem_cons, List.not_mem_nil, or_false] at membership
      rcases membership with (rfl | rfl) | first | rfl | second
      · exact .inert (by decide)
      · exact .inert (by decide)
      · exact .first reached (by decide) (by decide) first
      · exact .inert (by decide)
      · exact .second reached (by decide) (by decide) second
  | textList =>
      exact .of_call '!' "ackcompare.SliceStringPEqual" reached (ofLine_textList whole.1 whole.2)
        (.inert (by decide)) membership
  | textMap =>
      exact .of_call '!' "ackcompare.MapStringStringPEqual" reached
        (ofLine_textMap whole.1 whole.2) (.inert (by decide)) membership
  | helper shape =>
      have name := isWhole_of_isWord (words shape (known shape rfl))
      have function : Term.IsWhole shape.helperName := by
        have start : Term.IsWhole "equal" := by decide
        exact start.append name
      have nonempty : shape.helperName ≠ "" := by
        simp [Shape.helperName]
      have helperRole : Term.Role root blocks asked
          ("if " ++ (Test.helper shape).condition site ++ " \x7b") ⟨'!', shape.helperName, '('⟩ :=
        .helper site shape reached safe (known shape rfl) rfl (by simp) rfl
      exact .of_call '!' shape.helperName reached
        (ofLine_helper function nonempty whole.1 whole.2) helperRole membership

theorem newline_not_mem_condition {test : Test}
    (within : '\n' ∉ site.first.text.toList ∧ '\n' ∉ site.second.text.toList)
    (known : ∀ shape, test = .helper shape → asked shape)
    (words : ∀ shape, asked shape → Text.IsWord shape.name) :
    '\n' ∉ (test.condition site).toList := by
  cases test with
  | scalar kind =>
      by_cases isBlob : kind = .blob
      · subst isBlob
        simp [condition_blob, within]
      · by_cases isTimestamp : kind = .timestamp
        · subst isTimestamp
          simp [condition_timestamp, within]
        · simp [condition_follow isTimestamp isBlob, within]
  | whole => simp [condition_whole, within]
  | length => simp [condition_length, within]
  | textList => simp [condition_textList, within]
  | textMap => simp [condition_textMap, within]
  | helper shape =>
      have name : '\n' ∉ shape.name.toList := (words shape (known shape rfl)).not_mem (by decide)
      simp [condition_helper, Shape.helperName, within, name]

end Test

/-- A phrase holds no character that says how a term is used. -/
theorem Text.IsPhrase.quiet {text : String} (phrase : Text.IsPhrase text) :
    ∀ letter ∈ text.toList, letter ≠ '.' ∧ letter ≠ '*' ∧ letter ≠ '(' := by
  have noDot : Text.isWordLetter '.' = false := by decide
  have noStar : Text.isWordLetter '*' = false := by decide
  have noCall : Text.isWordLetter '(' = false := by decide
  intro letter membership
  refine ⟨?_, ?_, ?_⟩
  all_goals
    rintro rfl
    rcases phrase _ membership with inWord | isBlank
    · simp_all
    · simp at isBlank

namespace Emitted

variable {root : Site} {action : Site → String} {asked : Shape → Prop} {visited : Site → Prop}
  {blocks : List String} {text : String} {term : Term}

/-- Each term in a line of a comparison has a role, if those of the actions have one. -/
theorem role (emitted : Emitted root action asked visited blocks text) (wholeRoot : root.IsWhole)
    (words : ∀ shape, asked shape → Text.IsWord shape.name)
    (actions : ∀ site, Site.Reached root blocks site → ∀ term ∈ ofLine (action site),
      term.Role root blocks asked (action site))
    (membership : term ∈ ofLine text) : term.Role root blocks asked text := by
  cases emitted with
  | missing reached =>
      have whole := reached.isWhole wholeRoot
      exact .of_call ' ' "ackcompare.HasNilDifference" reached (ofLine_missing whole.1 whole.2)
        (.inert (by decide)) membership
  | @present site reached =>
      have whole := reached.isWhole wholeRoot
      have terms := ofLine_present whole.1 whole.2
      rw [Site.presentHeader, Access.isPresent, Access.isPresent, terms] at membership
      simp only [List.mem_append, List.mem_cons, List.not_mem_nil, or_false] at membership
      rcases membership with (rfl | rfl) | first | rfl | second | rfl
      · exact .inert (by decide)
      · exact .inert (by decide)
      · exact .first reached (by decide) (by decide) first
      · exact .inert (by decide)
      · exact .second reached (by decide) (by decide) second
      · exact .inert (by decide)
  | unequal reached safe known =>
      exact Test.role reached (reached.isWhole wholeRoot) safe known words membership
  | firstTags reached =>
      have whole := reached.isWhole wholeRoot
      refine .of_words [⟨'\n', "desiredACKTags", ','⟩, ⟨' ', "_", ' '⟩,
        ⟨' ', "convertToOrderedACKTags", '('⟩] '(' ')' [] reached (Or.inl rfl) ?_ (by decide)
        (by decide) (by decide) membership
      rw [ofLine_firstTags whole.1, List.append_nil]
  | secondTags reached =>
      have whole := reached.isWhole wholeRoot
      refine .of_words [⟨'\n', "latestACKTags", ','⟩, ⟨' ', "_", ' '⟩,
        ⟨' ', "convertToOrderedACKTags", '('⟩] '(' ')' [] reached (Or.inr rfl) ?_ (by decide)
        (by decide) (by decide) membership
      rw [ofLine_secondTags whole.2, List.append_nil]
  | unequalTags =>
      have inert : ∀ word ∈ ofLine
          ("if !ackcompare.MapStringStringEqual(desiredACKTags, latestACKTags)" ++ " \x7b"),
          word.IsInert := by decide
      exact .inert (inert term membership)
  | nonempty reached =>
      have whole := reached.isWhole wholeRoot
      refine .of_words [⟨' ', "else", ' '⟩, ⟨' ', "if", ' '⟩, ⟨' ', "len", '('⟩] '(' ')'
        [⟨' ', "0", ' '⟩] reached (Or.inl rfl) ?_ (by decide) (by decide) (by decide) membership
      exact ofLine_nonempty whole.1
  | eachKey reached =>
      have whole := reached.isWhole wholeRoot
      refine .of_words [⟨'\n', "for", ' '⟩, ⟨' ', "k", ' '⟩, ⟨' ', "range", ' '⟩] ' ' ' ' []
        reached (Or.inl rfl) ?_ (by decide) (by decide) (by decide) membership
      rw [ofLine_eachKey whole.1, List.append_nil]
  | @lacksKey site reached =>
      have position : Text.IsWord "k" := by decide
      have whole := (reached.index position).isWhole wholeRoot
      have same : "if _, ok := " ++ site.second.text ++ "[k]; !ok" ++ " \x7b" =
          "if _, ok := " ++ (site.index "k").second.text ++ "; !ok" ++ " \x7b" := by
        simp [Site.index, Access.text, ← String.toList_inj]
      rw [same] at membership ⊢
      refine .of_words [⟨'\n', "if", ' '⟩, ⟨' ', "_", ','⟩, ⟨' ', "ok", ' '⟩] ' ' ';'
        [⟨'!', "ok", ' '⟩] (reached.index position) (Or.inr rfl) ?_ (by decide) (by decide)
        (by decide) membership
      exact ofLine_lacksKey whole.2
  | eachIndex reached =>
      have whole := reached.isWhole wholeRoot
      refine .of_words [⟨'\n', "for", ' '⟩, ⟨' ', "i", ' '⟩, ⟨' ', "range", ' '⟩] ' ' ' ' []
        reached (Or.inl rfl) ?_ (by decide) (by decide) (by decide) membership
      rw [ofLine_eachIndex whole.1, List.append_nil]
  | eachEntry reached =>
      have whole := reached.isWhole wholeRoot
      refine .of_words [⟨'\n', "for", ' '⟩, ⟨' ', "k", ','⟩, ⟨' ', "av", ' '⟩,
        ⟨' ', "range", ' '⟩] ' ' ' ' [] reached (Or.inl rfl) ?_ (by decide) (by decide) (by decide)
        membership
      rw [ofLine_eachEntry whole.1, List.append_nil]
  | @entryValue site reached =>
      have position : Text.IsWord "k" := by decide
      have whole := (reached.index position).isWhole wholeRoot
      have same : "bv := " ++ site.second.text ++ "[k]" =
          "bv := " ++ (site.index "k").second.text := by
        simp [Site.index, Access.text, ← String.toList_inj]
      rw [same] at membership ⊢
      refine .of_words [⟨'\n', "bv", ' '⟩] ' ' '\n' [] (reached.index position) (Or.inr rfl) ?_
        (by decide) (by decide) (by decide) membership
      rw [ofLine_entryValue whole.2, List.append_nil]
  | @todo what phrase =>
      refine .inert (isInert_of_mem_scan ?_ (by decide) List.not_mem_nil membership)
      intro letter inLine
      have front : ∀ other ∈ "// TODO: ".toList, other ≠ '.' ∧ other ≠ '*' ∧ other ≠ '(' := by
        simp
      have back : ∀ other ∈ " is not yet implemented".toList,
          other ≠ '.' ∧ other ≠ '*' ∧ other ≠ '(' := by
        simp
      rw [String.toList_append, String.toList_append, List.mem_append, List.mem_append] at inLine
      rcases inLine with (inFront | inPhrase) | inBack
      · exact front letter inFront
      · exact phrase.quiet letter inPhrase
      · exact back letter inBack
  | action reached isVisited => exact actions _ reached term membership
  | close =>
      have none : ofLine "\x7d" = [] := by decide
      rw [none] at membership
      exact absurd membership List.not_mem_nil

theorem isPlain {level : Nat} (emitted : Emitted root action asked visited blocks text)
    (wholeRoot : root.IsWhole) (words : ∀ shape, asked shape → Text.IsWord shape.name)
    (actions : ∀ site, Site.Reached root blocks site → Line.IsPlain ⟨level, action site⟩) :
    Line.IsPlain ⟨level, text⟩ := by
  have within : ∀ {site : Site}, Site.Reached root blocks site →
      '\n' ∉ site.first.text.toList ∧ '\n' ∉ site.second.text.toList := by
    intro site reached
    have whole := reached.isWhole wholeRoot
    exact ⟨whole.1.not_mem (by decide), whole.2.not_mem (by decide)⟩
  cases emitted with
  | missing reached => simp [Line.IsPlain, within reached]
  | present reached => simp [Line.IsPlain, Site.presentHeader, Access.isPresent, within reached]
  | unequal reached safe known =>
      refine ⟨?_, by simp⟩
      simp only [String.toList_append, List.mem_append, not_or]
      refine ⟨⟨by simp, ?_⟩, by simp⟩
      exact Test.newline_not_mem_condition (within reached) known words
  | firstTags reached => simp [Line.IsPlain, within reached]
  | secondTags reached => simp [Line.IsPlain, within reached]
  | unequalTags => simp [Line.IsPlain]
  | nonempty reached => simp [Line.IsPlain, within reached]
  | eachKey reached => simp [Line.IsPlain, within reached]
  | lacksKey reached => simp [Line.IsPlain, within reached]
  | eachIndex reached => simp [Line.IsPlain, within reached]
  | eachEntry reached => simp [Line.IsPlain, within reached]
  | entryValue reached => simp [Line.IsPlain, within reached]
  | @todo what phrase =>
      have noNewline : '\n' ∉ what.toList := by
        intro membership
        rcases phrase _ membership with isWord | isBlank
        · exact absurd isWord (by decide)
        · exact absurd isBlank (by decide)
      simp [Line.IsPlain, noNewline]
  | action reached isVisited => exact actions _ reached
  | close => simp [Line.IsPlain]

end Emitted

namespace Check

variable {root : Site} {action : Site → String} {plain : Shape → Prop} {checks : List Check}

/-- The lines of a body: an empty one and lines of comparisons. -/
def BodyLine (root : Site) (action : Site → String) (checks : List Check) (blocks : List String)
    (text : String) : Prop :=
  text = "" ∨
    Emitted root action (· ∈ Demand.shapes (demandsOf checks)) (· ∈ sitesOf checks) blocks text

theorem hold_body (flat : IsFlat action) (sound : SoundOf root plain [] checks) (level : Nat) :
    Line.Hold (BodyLine root action checks) []
      (Line.blank :: Code.linesOf (codeOf action checks) level) := by
  have holds := holdsOf_codeOf flat checks sound (fun shape demanded => demanded)
    (fun site isVisited => isVisited)
  refine ⟨Or.inl rfl, ?_⟩
  exact (Code.hold_linesOf _ level (Code.HoldsOf.mono (fun _ _ => Or.inr) _ holds)).1

theorem readAll_body (flat : IsFlat action) (sound : SoundOf root plain [] checks)
    (wholeRoot : root.IsWhole) (words : ∀ shape, plain shape → Text.IsWord shape.name)
    (level : Nat)
    (actions : ∀ blocks site, Site.Reached root blocks site →
      ∀ level, Line.IsPlain ⟨level, action site⟩) :
    Line.readAll (Code.renderBehindBlank (codeOf action checks) level) =
      Line.blank :: Code.linesOf (codeOf action checks) level := by
  apply Code.readAll_renderBehindBlank
  intro line membership
  rcases (hold_body flat sound level).of_mem (List.mem_cons_of_mem _ membership) with
    ⟨blocks, same | emitted⟩
  · simp [Line.IsPlain, same]
  · refine emitted.isPlain wholeRoot ?_ (fun site reached => actions blocks site reached _)
    intro shape demanded
    exact words shape (plain_of_soundOf checks sound shape demanded)

end Check

end Reconcile
