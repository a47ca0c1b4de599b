import Reconcile.Proofs.Compare.Definitions

/-!
# Operands of a comparison

The expressions that the code of checks is written with. Each term in a line of equality code
that uses a value at all is such an expression (`Check.isOperandOf_of_mem`), so that what a
text compares is known from the sites of its checks.
-/

namespace Reconcile

namespace Term

/-- The expression whose value a term uses. Texts and the names of functions use none. -/
def expression? (term : Term) : Option String :=
  if term.before = '"' then none
  else if term.IsMethod then Text.dropEnd? ".Equal" term.text
  else if term.after = '(' then none
  else some term.text

/-- Whether a term uses one of two expressions of sites, if it uses more than a single name. -/
def IsOperandOf (sites : List Site) (term : Term) : Prop :=
  ∀ expression ∈ term.expression?, '.' ∉ expression.toList ∨
    ∃ site ∈ sites, expression = site.first.text ∨ expression = site.second.text

/-- Whether a term can be seen to use single names only. -/
def IsSilent (term : Term) : Prop :=
  ∀ expression ∈ term.expression?, '.' ∉ expression.toList

instance (term : Term) : Decidable term.IsSilent :=
  inferInstanceAs (Decidable (∀ expression ∈ term.expression?, '.' ∉ expression.toList))

variable {sites : List Site} {site : Site} {term : Term}

theorem IsSilent.isOperandOf (silent : term.IsSilent) : term.IsOperandOf sites :=
  fun expression used => Or.inl (silent expression used)

theorem IsOperandOf.mono {more : List Site} (isOperand : term.IsOperandOf sites)
    (subset : sites ⊆ more) : term.IsOperandOf more := by
  intro expression used
  rcases isOperand expression used with noDot | ⟨site, listed, same⟩
  · exact Or.inl noDot
  · exact Or.inr ⟨site, subset listed, same⟩

theorem isSilent_of_noDot (noDot : '.' ∉ term.text.toList) : term.IsSilent := by
  intro expression used
  unfold expression? at used
  split at used
  · simp at used
  · split at used
    · rename_i isMethod
      exfalso
      apply noDot
      exact isMethod.2.1.subset (by simp)
    · split at used
      · simp at used
      · rwa [← Option.mem_some.mp used]

theorem isOperandOf_close {before after : Char} {operand : String} (listed : site ∈ sites)
    (same : operand = site.first.text ∨ operand = site.second.text) (noCall : after ≠ '(')
    (membership : term ∈ close before operand.toList after) : term.IsOperandOf sites := by
  rcases mem_close.mp membership with ⟨_, rfl⟩
  intro expression used
  have noMethod : ¬IsMethod ⟨before, String.ofList operand.toList, after⟩ :=
    fun isMethod => noCall isMethod.1
  unfold expression? at used
  split at used
  · simp at used
  · rw [Option.mem_some, String.ofList_toList] at used
    rw [← used]
    exact Or.inr ⟨site, listed, same⟩

theorem isOperandOf_method {before : Char} (listed : site ∈ sites) :
    IsOperandOf sites ⟨before, site.first.text ++ ".Equal", '('⟩ := by
  intro expression used
  unfold expression? at used
  split at used
  · simp at used
  · split at used
    · dsimp only at used
      rw [Text.dropEnd?_append, Option.mem_some] at used
      rw [← used]
      exact Or.inr ⟨site, listed, Or.inl rfl⟩
    · simp at used

end Term

/-- Whether all terms of a line use the expressions of sites only. -/
def Line.LooksAt (sites : List Site) (text : String) : Prop :=
  ∀ term ∈ Term.ofLine text, term.IsOperandOf sites

namespace Line

open Term

variable {sites more : List Site} {site : Site} {text : String}

theorem LooksAt.mono (looksAt : LooksAt sites text) (subset : sites ⊆ more) :
    LooksAt more text :=
  fun term membership => (looksAt term membership).mono subset

theorem looksAt_of_silent (silent : ∀ term ∈ ofLine text, term.IsSilent) : LooksAt sites text :=
  fun term membership => (silent term membership).isOperandOf

/-- A line that calls a function with both sides of a site. -/
theorem looksAt_of_call {start : Char} {function : String} (listed : site ∈ sites)
    (terms : ofLine text = [⟨'\n', "if", ' '⟩, ⟨start, function, '('⟩] ++
      (close '(' site.first.text.toList ',' ++ close ' ' site.second.text.toList ')'))
    (silent : IsSilent ⟨start, function, '('⟩) : LooksAt sites text := by
  intro term membership
  rw [terms] at membership
  simp only [List.mem_append, List.mem_cons, List.not_mem_nil, or_false] at membership
  rcases membership with (rfl | rfl) | first | second
  · exact IsSilent.isOperandOf (by decide)
  · exact silent.isOperandOf
  · exact isOperandOf_close listed (Or.inl rfl) (by decide) first
  · exact isOperandOf_close listed (Or.inr rfl) (by decide) second

/-- A line of words of the language around the expression of one side. -/
theorem looksAt_of_words {operand : String} {words others : List Term} {before after : Char}
    (listed : site ∈ sites) (same : operand = site.first.text ∨ operand = site.second.text)
    (terms : ofLine text = words ++ close before operand.toList after ++ others)
    (silent : ∀ word ∈ words ++ others, word.IsSilent) (noCall : after ≠ '(') :
    LooksAt sites text := by
  intro term membership
  rw [terms, List.mem_append, List.mem_append] at membership
  rcases membership with (word | read) | other
  · exact (silent term (List.mem_append_left _ word)).isOperandOf
  · exact isOperandOf_close listed same noCall read
  · exact (silent term (List.mem_append_right _ other)).isOperandOf

theorem looksAt_present (listed : site ∈ sites) (whole : site.IsWhole) :
    LooksAt sites site.presentHeader := by
  intro term membership
  rw [Site.presentHeader, Access.isPresent, Access.isPresent, ofLine_present whole.1 whole.2]
    at membership
  simp only [List.mem_append, List.mem_cons, List.not_mem_nil, or_false] at membership
  rcases membership with (rfl | rfl) | first | rfl | second | rfl
  · exact IsSilent.isOperandOf (by decide)
  · exact IsSilent.isOperandOf (by decide)
  · exact isOperandOf_close listed (Or.inl rfl) (by decide) first
  · exact IsSilent.isOperandOf (by decide)
  · exact isOperandOf_close listed (Or.inr rfl) (by decide) second
  · exact IsSilent.isOperandOf (by decide)

/-- The line of a test looks at the site of the test. -/
theorem looksAt_condition {test : Test} (listed : site ∈ sites) (whole : site.IsWhole)
    (words : ∀ shape, test = .helper shape → Text.IsWord shape.name) :
    LooksAt sites ("if " ++ test.condition site ++ " \x7b") := by
  cases test with
  | scalar kind =>
      by_cases isBlob : kind = .blob
      · subst isBlob
        exact looksAt_of_call listed (ofLine_blob whole.1 whole.2) (by decide)
      · by_cases isTimestamp : kind = .timestamp
        · subst isTimestamp
          intro term membership
          rw [Test.condition_timestamp, ofLine_method whole.1 whole.2] at membership
          simp only [List.mem_append, List.mem_cons, List.not_mem_nil, or_false] at membership
          rcases membership with (rfl | rfl) | second
          · exact IsSilent.isOperandOf (by decide)
          · exact isOperandOf_method listed
          · exact isOperandOf_close listed (Or.inr rfl) (by decide) second
        · intro term membership
          rw [Test.condition_follow isTimestamp isBlob, ofLine_follow whole.1 whole.2]
            at membership
          simp only [List.mem_append, List.mem_singleton] at membership
          rcases membership with rfl | first | second
          · exact IsSilent.isOperandOf (by decide)
          · exact isOperandOf_close listed (Or.inl rfl) (by decide) first
          · exact isOperandOf_close listed (Or.inr rfl) (by decide) second
  | whole => exact looksAt_of_call listed (ofLine_whole whole.1 whole.2) (by decide)
  | length =>
      intro term membership
      rw [Test.condition_length, ofLine_length whole.1 whole.2] at membership
      simp only [List.mem_append, List.mem_cons, List.not_mem_nil, or_false] at membership
      rcases membership with (rfl | rfl) | first | rfl | second
      · exact IsSilent.isOperandOf (by decide)
      · exact IsSilent.isOperandOf (by decide)
      · exact isOperandOf_close listed (Or.inl rfl) (by decide) first
      · exact IsSilent.isOperandOf (by decide)
      · exact isOperandOf_close listed (Or.inr rfl) (by decide) second
  | textList => exact looksAt_of_call listed (ofLine_textList whole.1 whole.2) (by decide)
  | textMap => exact looksAt_of_call listed (ofLine_textMap whole.1 whole.2) (by decide)
  | helper shape =>
      have word := Equality.isWord_helperName (words shape rfl)
      have function := isWhole_of_isWord word
      have nonempty : shape.helperName ≠ "" := by simp [Shape.helperName]
      apply looksAt_of_call listed (ofLine_helper function nonempty whole.1 whole.2)
      exact isSilent_of_noDot (word.not_mem (by decide))

end Line

namespace Check

mutual

/-- The sites whose expressions a check is written with, in order. -/
def operands : Check → List Site
  | .present site inside => site :: operandsOf inside
  | .unequal site _ => [site]
  | .tags site => [site]
  | .sized site inside => site :: operandsOf inside
  | .keys site => [site, site.index "k"]
  | .eachIndex site inside => site :: operandsOf inside
  | .eachEntry site inside => site :: site.index "k" :: operandsOf inside
  | .todo _ => []
  | .remark _ inside => operandsOf inside
  | .rejected _ _ => []

/-- The sites whose expressions checks are written with, in order. -/
def operandsOf : List Check → List Site
  | [] => []
  | check :: rest => check.operands ++ operandsOf rest

end

theorem mem_operandsOf {site : Site} {checks : List Check} :
    site ∈ operandsOf checks ↔ ∃ check ∈ checks, site ∈ check.operands := by
  induction checks with
  | nil => simp [operandsOf]
  | cons check rest ih => simp [operandsOf, ih]

theorem mem_operandsOf_flatMap {α : Type} {site : Site} {items : List α}
    {checks : α → List Check} :
    site ∈ operandsOf (items.flatMap checks) ↔ ∃ item ∈ items, site ∈ operandsOf (checks item) := by
  simp only [mem_operandsOf, List.mem_flatMap]
  constructor
  · rintro ⟨check, ⟨item, listed, inChecks⟩, isOperand⟩
    exact ⟨item, listed, check, inChecks, isOperand⟩
  · rintro ⟨item, listed, check, inChecks, isOperand⟩
    exact ⟨check, ⟨item, listed, inChecks⟩, isOperand⟩

end Check

/-! ### Lines of checks -/

namespace Code

variable {property : Line → Prop} {level : Nat}

theorem forall_linesOf_cons {code : Code} {rest : List Code} :
    (∀ line ∈ linesOf (code :: rest) level, property line) ↔
      (∀ line ∈ code.lines level, property line) ∧ ∀ line ∈ linesOf rest level, property line := by
  rw [linesOf, List.forall_mem_append]

theorem forall_linesOf_singleton {code : Code} :
    (∀ line ∈ linesOf [code] level, property line) ↔ ∀ line ∈ code.lines level, property line := by
  simp [linesOf]

theorem forall_lines_line {text : String} :
    (∀ line ∈ (Code.line text).lines level, property line) ↔ property ⟨level, text⟩ := by
  simp [lines]

theorem forall_lines_block {header : String} {body : List Code} :
    (∀ line ∈ (Code.block header body).lines level, property line) ↔
      property ⟨level, header ++ " \x7b"⟩ ∧ (∀ line ∈ linesOf body (level + 1), property line) ∧
        property ⟨level, "\x7d"⟩ := by
  rw [lines, List.forall_mem_cons, List.forall_mem_append, List.forall_mem_singleton]

theorem forall_lines_branch {header otherwise : String} {body alternative : List Code} :
    (∀ line ∈ (Code.branch header body otherwise alternative).lines level, property line) ↔
      property ⟨level, header ++ " \x7b"⟩ ∧ (∀ line ∈ linesOf body (level + 1), property line) ∧
        property ⟨level, "\x7d " ++ otherwise ++ " \x7b"⟩ ∧
          (∀ line ∈ linesOf alternative (level + 1), property line) ∧
            property ⟨level, "\x7d"⟩ := by
  rw [lines, List.forall_mem_cons, List.forall_mem_append, List.forall_mem_cons,
    List.forall_mem_append, List.forall_mem_singleton]

end Code

namespace Line

open Term

variable {sites : List Site} {site : Site}

theorem looksAt_end : LooksAt sites "\x7d" :=
  looksAt_of_silent (by decide)

/-- Equality code returns at a difference without another look at the values. -/
theorem looksAt_action {level : Nat} :
    ∀ line ∈ Code.linesOf [.line (Equality.action site)] level, LooksAt sites line.text := by
  rw [Code.forall_linesOf_singleton, Code.forall_lines_line]
  have silent : ∀ term ∈ ofLine "return false", term.IsSilent := by decide
  exact looksAt_of_silent silent

theorem looksAt_missing (listed : site ∈ sites) (whole : site.IsWhole) :
    LooksAt sites ("if ackcompare.HasNilDifference(" ++ site.first.text ++ ", " ++
      site.second.text ++ ")" ++ " \x7b") :=
  looksAt_of_call listed (ofLine_missing whole.1 whole.2) (by decide)

theorem looksAt_firstTags (listed : site ∈ sites) (whole : site.IsWhole) :
    LooksAt sites
      ("desiredACKTags, _ := convertToOrderedACKTags(" ++ site.first.text ++ ")") := by
  have terms := ofLine_firstTags whole.1
  rw [← List.append_nil (_ ++ close _ _ _)] at terms
  exact looksAt_of_words listed (Or.inl rfl) terms (by decide) (by decide)

theorem looksAt_secondTags (listed : site ∈ sites) (whole : site.IsWhole) :
    LooksAt sites
      ("latestACKTags, _ := convertToOrderedACKTags(" ++ site.second.text ++ ")") := by
  have terms := ofLine_secondTags whole.2
  rw [← List.append_nil (_ ++ close _ _ _)] at terms
  exact looksAt_of_words listed (Or.inr rfl) terms (by decide) (by decide)

theorem looksAt_unequalTags :
    LooksAt sites
      ("if !ackcompare.MapStringStringEqual(desiredACKTags, latestACKTags)" ++ " \x7b") :=
  looksAt_of_silent (by decide)

theorem looksAt_nonempty (listed : site ∈ sites) (whole : site.IsWhole) :
    LooksAt sites ("\x7d " ++ ("else if len(" ++ site.first.text ++ ") > 0") ++ " \x7b") :=
  looksAt_of_words listed (Or.inl rfl) (ofLine_nonempty whole.1) (by decide) (by decide)

theorem looksAt_eachKey (listed : site ∈ sites) (whole : site.IsWhole) :
    LooksAt sites ("for k := range " ++ site.first.text ++ " \x7b") := by
  have terms := ofLine_eachKey whole.1
  rw [← List.append_nil (_ ++ close _ _ _)] at terms
  exact looksAt_of_words listed (Or.inl rfl) terms (by decide) (by decide)

theorem looksAt_eachIndex (listed : site ∈ sites) (whole : site.IsWhole) :
    LooksAt sites ("for i := range " ++ site.first.text ++ " \x7b") := by
  have terms := ofLine_eachIndex whole.1
  rw [← List.append_nil (_ ++ close _ _ _)] at terms
  exact looksAt_of_words listed (Or.inl rfl) terms (by decide) (by decide)

theorem looksAt_eachEntry (listed : site ∈ sites) (whole : site.IsWhole) :
    LooksAt sites ("for k, av := range " ++ site.first.text ++ " \x7b") := by
  have terms := ofLine_eachEntry whole.1
  rw [← List.append_nil (_ ++ close _ _ _)] at terms
  exact looksAt_of_words listed (Or.inl rfl) terms (by decide) (by decide)

theorem looksAt_lacksKey (listed : site.index "k" ∈ sites) (whole : (site.index "k").IsWhole) :
    LooksAt sites ("if _, ok := " ++ site.second.text ++ "[k]; !ok" ++ " \x7b") := by
  -- The index lies in one term with the mapping in front of it.
  have same : "if _, ok := " ++ site.second.text ++ "[k]; !ok" ++ " \x7b" =
      "if _, ok := " ++ (site.index "k").second.text ++ "; !ok" ++ " \x7b" := by
    simp [Site.index, Access.text, ← String.toList_inj]
  rw [same]
  exact looksAt_of_words listed (Or.inr rfl) (ofLine_lacksKey whole.2) (by decide) (by decide)

theorem looksAt_entryValue (listed : site.index "k" ∈ sites) (whole : (site.index "k").IsWhole) :
    LooksAt sites ("bv := " ++ site.second.text ++ "[k]") := by
  have same : "bv := " ++ site.second.text ++ "[k]" =
      "bv := " ++ (site.index "k").second.text := by
    simp [Site.index, Access.text, ← String.toList_inj]
  have terms := ofLine_entryValue whole.2
  rw [← List.append_nil (_ ++ close _ _ _)] at terms
  rw [same]
  exact looksAt_of_words listed (Or.inr rfl) terms (by decide) (by decide)

theorem looksAt_todo {what : String} (phrase : Text.IsPhrase what) :
    LooksAt sites ("// TODO: " ++ what ++ " is not yet implemented") := by
  apply looksAt_of_silent
  intro term membership
  apply isSilent_of_noDot
  intro inTerm
  have inLine := text_subset_of_mem_ofLine membership inTerm
  have noDot : '.' ∉ what.toList := fun inPhrase => (phrase.quiet _ inPhrase).1 rfl
  simp [noDot] at inLine

end Line

namespace Check

variable {root : Site} {plain : Shape → Prop}

mutual

/-- Each line of a check looks at its operands only. -/
theorem looksAt_code (wholeRoot : root.IsWhole)
    (words : ∀ shape, plain shape → Text.IsWord shape.name) {blocks : List String} :
    (check : Check) → (level : Nat) → check.Sound root plain blocks →
      ∀ line ∈ Code.linesOf (check.code Equality.action) level,
        Line.LooksAt check.operands line.text
  | .present site inside, level, ⟨reached, sound⟩ => by
      have whole := reached.isWhole wholeRoot
      have insideLooks := looksAt_codeOf wholeRoot words inside (level + 1) sound
      rw [code, operands, Code.forall_linesOf_singleton, Code.forall_lines_branch]
      refine ⟨Line.looksAt_missing List.mem_cons_self whole, Line.looksAt_action,
        Line.looksAt_present List.mem_cons_self whole, ?_, Line.looksAt_end⟩
      intro line membership
      exact (insideLooks line membership).mono (List.subset_cons_self _ _)
  | .unequal site test, level, ⟨reached, _, plainShapes⟩ => by
      have whole := reached.isWhole wholeRoot
      rw [code, operands, Code.forall_linesOf_singleton, Code.forall_lines_block]
      refine ⟨Line.looksAt_condition List.mem_cons_self whole ?_, Line.looksAt_action,
        Line.looksAt_end⟩
      intro shape same
      exact words shape (plainShapes shape same)
  | .tags site, level, reached => by
      have whole := Site.Reached.isWhole wholeRoot reached
      rw [code, operands, Code.forall_linesOf_cons, Code.forall_linesOf_cons,
        Code.forall_linesOf_singleton, Code.forall_lines_line, Code.forall_lines_line,
        Code.forall_lines_block]
      exact ⟨Line.looksAt_firstTags List.mem_cons_self whole,
        Line.looksAt_secondTags List.mem_cons_self whole, Line.looksAt_unequalTags,
        Line.looksAt_action, Line.looksAt_end⟩
  | .sized site inside, level, ⟨reached, sound⟩ => by
      have whole := reached.isWhole wholeRoot
      have insideLooks := looksAt_codeOf wholeRoot words inside (level + 1) sound
      rw [code, operands, Code.forall_linesOf_singleton, Code.forall_lines_branch]
      refine ⟨Line.looksAt_condition List.mem_cons_self whole (by simp), Line.looksAt_action,
        Line.looksAt_nonempty List.mem_cons_self whole, ?_, Line.looksAt_end⟩
      intro line membership
      exact (insideLooks line membership).mono (List.subset_cons_self _ _)
  | .keys site, level, reached => by
      have whole := Site.Reached.isWhole wholeRoot reached
      have wholeKey := (reached.index (by decide : Text.IsWord "k")).isWhole wholeRoot
      have keyListed : site.index "k" ∈ [site, site.index "k"] := by simp
      rw [code, operands, Code.forall_linesOf_singleton, Code.forall_lines_block,
        Code.forall_linesOf_singleton, Code.forall_lines_block]
      exact ⟨Line.looksAt_eachKey List.mem_cons_self whole,
        ⟨Line.looksAt_lacksKey keyListed wholeKey, Line.looksAt_action, Line.looksAt_end⟩,
        Line.looksAt_end⟩
  | .eachIndex site inside, level, ⟨reached, sound⟩ => by
      have whole := reached.isWhole wholeRoot
      have insideLooks := looksAt_codeOf wholeRoot words inside (level + 1) sound
      rw [code, operands, Code.forall_linesOf_singleton, Code.forall_lines_block]
      refine ⟨Line.looksAt_eachIndex List.mem_cons_self whole, ?_, Line.looksAt_end⟩
      intro line membership
      exact (insideLooks line membership).mono (List.subset_cons_self _ _)
  | .eachEntry site inside, level, ⟨reached, sound⟩ => by
      have whole := reached.isWhole wholeRoot
      have wholeKey := (reached.index (by decide : Text.IsWord "k")).isWhole wholeRoot
      have keyListed : site.index "k" ∈ site :: site.index "k" :: operandsOf inside := by simp
      have insideLooks := looksAt_codeOf wholeRoot words inside (level + 1) sound
      rw [code, operands, Code.forall_linesOf_singleton, Code.forall_lines_block,
        Code.forall_linesOf_cons, Code.forall_lines_line]
      refine ⟨Line.looksAt_eachEntry List.mem_cons_self whole,
        ⟨Line.looksAt_entryValue keyListed wholeKey, ?_⟩, Line.looksAt_end⟩
      intro line membership
      apply (insideLooks line membership).mono
      exact List.subset_cons_of_subset _ (List.subset_cons_self _ _)
  | .todo what, level, phrase => by
      rw [code, Code.forall_linesOf_singleton, Code.forall_lines_line]
      exact Line.looksAt_todo phrase
  | .remark text inside, level, impossible => impossible.elim
  | .rejected path key, level, _ => by
      simp [code, Code.linesOf]

theorem looksAt_codeOf (wholeRoot : root.IsWhole)
    (words : ∀ shape, plain shape → Text.IsWord shape.name) {blocks : List String} :
    (checks : List Check) → (level : Nat) → SoundOf root plain blocks checks →
      ∀ line ∈ Code.linesOf (codeOf Equality.action checks) level,
        Line.LooksAt (operandsOf checks) line.text
  | [], level, _ => by
      simp [codeOf, Code.linesOf]
  | check :: rest, level, ⟨sound, restSound⟩ => by
      have ofCheck := looksAt_code wholeRoot words check level sound
      have ofRest := looksAt_codeOf wholeRoot words rest level restSound
      rw [codeOf, operandsOf, Code.linesOf_append, List.forall_mem_append]
      constructor
      · intro line membership
        exact (ofCheck line membership).mono (List.subset_append_left _ _)
      · intro line membership
        exact (ofRest line membership).mono (List.subset_append_right _ _)

end

mutual

/-- The operands of a sound check are reached. -/
theorem exists_reached {blocks : List String} : (check : Check) →
    check.Sound root plain blocks →
      ∀ operand ∈ check.operands, ∃ more, Site.Reached root more operand
  | .present site inside, ⟨reached, sound⟩ => by
      rw [operands, List.forall_mem_cons]
      exact ⟨⟨blocks, reached⟩, exists_reached_of inside sound⟩
  | .unequal site test, ⟨reached, _, _⟩ => by
      rw [operands, List.forall_mem_singleton]
      exact ⟨blocks, reached⟩
  | .tags site, reached => by
      rw [operands, List.forall_mem_singleton]
      exact ⟨blocks, reached⟩
  | .sized site inside, ⟨reached, sound⟩ => by
      rw [operands, List.forall_mem_cons]
      exact ⟨⟨blocks, reached⟩, exists_reached_of inside sound⟩
  | .keys site, reached => by
      rw [operands, List.forall_mem_cons, List.forall_mem_singleton]
      exact ⟨⟨blocks, reached⟩, blocks, .index reached (by decide)⟩
  | .eachIndex site inside, ⟨reached, sound⟩ => by
      rw [operands, List.forall_mem_cons]
      exact ⟨⟨blocks, reached⟩, exists_reached_of inside sound⟩
  | .eachEntry site inside, ⟨reached, sound⟩ => by
      rw [operands, List.forall_mem_cons, List.forall_mem_cons]
      exact ⟨⟨blocks, reached⟩, ⟨blocks, .index reached (by decide)⟩,
        exists_reached_of inside sound⟩
  | .todo what, _ => by simp [operands]
  | .remark text inside, impossible => impossible.elim
  | .rejected path key, _ => by simp [operands]

theorem exists_reached_of {blocks : List String} : (checks : List Check) →
    SoundOf root plain blocks checks →
      ∀ operand ∈ operandsOf checks, ∃ more, Site.Reached root more operand
  | [], _ => by simp [operandsOf]
  | check :: rest, ⟨sound, restSound⟩ => by
      rw [operandsOf, List.forall_mem_append]
      exact ⟨exists_reached check sound, exists_reached_of rest restSound⟩

end

end Check

end Reconcile
