import Reconcile.Proofs.Compare.Operands
import Reconcile.Proofs.Compare.Recording

/-!
# Calls of the conversion of tags

Values that are compared as tags are converted by a function that the comparison itself does not
define. Which lines call it is read off their terms: those of comparisons of tags
(`Check.exists_convertsTags`) and no others (`Check.tagSites_ne_nil`). A comparison of a resource
compares only the values of its tag field as tags (`Strategy.isTagField_of_mem_resource`).
-/

namespace Reconcile

/-! ### Calls in a line -/

namespace Line

open Term

/-- The functions and methods that a line calls, in order. -/
def calls (text : String) : List String :=
  ((ofLine text).filter (fun term => term.after = '(')).map Term.text

/-- Whether a line calls the function that converts tags. -/
def ConvertsTags (text : String) : Prop :=
  "convertToOrderedACKTags" ∈ calls text

instance (text : String) : Decidable (ConvertsTags text) :=
  inferInstanceAs (Decidable ("convertToOrderedACKTags" ∈ calls text))

variable {first second : String}

theorem filter_close {before after : Char} {letters : List Char} (noCall : after ≠ '(') :
    (close before letters after).filter (fun term => term.after = '(') = [] := by
  unfold close
  split
  · rfl
  · simp [noCall]

theorem calls_missing (firstWhole : IsWhole first) (secondWhole : IsWhole second) :
    calls ("if ackcompare.HasNilDifference(" ++ first ++ ", " ++ second ++ ")" ++ " \x7b") =
      ["ackcompare.HasNilDifference"] := by
  simp [calls, ofLine_missing firstWhole secondWhole, filter_close]

theorem calls_present {site : Site} (whole : site.IsWhole) : calls site.presentHeader = [] := by
  rw [Site.presentHeader, Access.isPresent, Access.isPresent]
  simp [calls, ofLine_present whole.1 whole.2, filter_close]

theorem calls_nonempty (firstWhole : IsWhole first) :
    calls ("\x7d " ++ ("else if len(" ++ first ++ ") > 0") ++ " \x7b") = ["len"] := by
  simp [calls, ofLine_nonempty firstWhole, filter_close]

theorem calls_eachKey (firstWhole : IsWhole first) :
    calls ("for k := range " ++ first ++ " \x7b") = [] := by
  simp [calls, ofLine_eachKey firstWhole, filter_close]

theorem calls_eachIndex (firstWhole : IsWhole first) :
    calls ("for i := range " ++ first ++ " \x7b") = [] := by
  simp [calls, ofLine_eachIndex firstWhole, filter_close]

theorem calls_eachEntry (firstWhole : IsWhole first) :
    calls ("for k, av := range " ++ first ++ " \x7b") = [] := by
  simp [calls, ofLine_eachEntry firstWhole, filter_close]

theorem convertsTags_firstTags (firstWhole : IsWhole first) :
    ConvertsTags ("desiredACKTags, _ := convertToOrderedACKTags(" ++ first ++ ")") := by
  simp [ConvertsTags, calls, ofLine_firstTags firstWhole]

theorem calls_lacksKey {site : Site} (whole : (site.index "k").IsWhole) :
    calls ("if _, ok := " ++ site.second.text ++ "[k]; !ok" ++ " \x7b") = [] := by
  have same : "if _, ok := " ++ site.second.text ++ "[k]; !ok" ++ " \x7b" =
      "if _, ok := " ++ (site.index "k").second.text ++ "; !ok" ++ " \x7b" := by
    simp [Site.index, Access.text, ← String.toList_inj]
  rw [same]
  simp [calls, ofLine_lacksKey whole.2, filter_close]

theorem calls_entryValue {site : Site} (whole : (site.index "k").IsWhole) :
    calls ("bv := " ++ site.second.text ++ "[k]") = [] := by
  have same : "bv := " ++ site.second.text ++ "[k]" =
      "bv := " ++ (site.index "k").second.text := by
    simp [Site.index, Access.text, ← String.toList_inj]
  rw [same]
  simp [calls, ofLine_entryValue whole.2, filter_close]

/-- The character behind a term stands in its line. -/
theorem after_of_mem_scan {before : Char} {begun letters : List Char} {term : Term}
    (membership : term ∈ scan before begun letters) :
    term.after = '\n' ∨ term.after ∈ letters := by
  induction letters generalizing before begun with
  | nil =>
      rcases mem_close.mp membership with ⟨_, rfl⟩
      exact Or.inl rfl
  | cons letter rest ih =>
      rw [scan] at membership
      split at membership
      · exact (ih membership).imp_right (List.mem_cons_of_mem letter)
      · rcases List.mem_append.mp membership with inClose | later
        · rcases mem_close.mp inClose with ⟨_, rfl⟩
          exact Or.inr List.mem_cons_self
        · exact (ih later).imp_right (List.mem_cons_of_mem letter)

theorem calls_todo {what : String} (phrase : Text.IsPhrase what) :
    calls ("// TODO: " ++ what ++ " is not yet implemented") = [] := by
  have noCall : '(' ∉ ("// TODO: " ++ what ++ " is not yet implemented").toList := by
    have inWhat : '(' ∉ what.toList := fun membership => (phrase.quiet _ membership).2.2 rfl
    simp [inWhat]
  rw [calls, List.map_eq_nil_iff, List.filter_eq_nil_iff]
  intro term membership isCall
  rcases after_of_mem_scan membership with isEnd | inLine
  · simp [isEnd] at isCall
  · rw [of_decide_eq_true isCall] at inLine
    exact noCall inLine

theorem not_convertsTags_end : ¬ConvertsTags "\x7d" := by
  decide

/-- The only functions that tests call compare values. -/
theorem not_convertsTags_condition {site : Site} {test : Test} (whole : site.IsWhole)
    (words : ∀ shape, test = .helper shape → Text.IsWord shape.name) :
    ¬ConvertsTags ("if " ++ test.condition site ++ " \x7b") := by
  unfold ConvertsTags
  cases test with
  | scalar kind =>
      by_cases isBlob : kind = .blob
      · subst isBlob
        simp [Test.condition_blob, calls, ofLine_blob whole.1 whole.2, filter_close]
      · by_cases isTimestamp : kind = .timestamp
        · subst isTimestamp
          have called : calls ("if " ++ (Test.scalar .timestamp).condition site ++ " \x7b") =
              [site.first.text ++ ".Equal"] := by
            simp [Test.condition_timestamp, calls, ofLine_method whole.1 whole.2, filter_close]
          rw [called, List.mem_singleton]
          intro same
          have isEnd : ".Equal".toList <:+ "convertToOrderedACKTags".toList := by
            rw [same, String.toList_append]
            exact List.suffix_append _ _
          exact absurd isEnd (by decide)
        · simp [Test.condition_follow isTimestamp isBlob, calls, ofLine_follow whole.1 whole.2,
            filter_close]
  | whole => simp [Test.condition_whole, calls, ofLine_whole whole.1 whole.2, filter_close]
  | length => simp [Test.condition_length, calls, ofLine_length whole.1 whole.2, filter_close]
  | textList => simp [Test.condition_textList, calls, ofLine_textList whole.1 whole.2, filter_close]
  | textMap => simp [Test.condition_textMap, calls, ofLine_textMap whole.1 whole.2, filter_close]
  | helper shape =>
      have function := isWhole_of_isWord (Equality.isWord_helperName (words shape rfl))
      have nonempty : shape.helperName ≠ "" := by simp [Shape.helperName]
      have called : calls ("if " ++ (Test.helper shape).condition site ++ " \x7b") =
          [shape.helperName] := by
        simp [Test.condition_helper, calls, ofLine_helper function nonempty whole.1 whole.2,
          filter_close]
      rw [called, List.mem_singleton]
      intro same
      have isFront : "equal".toList <+: "convertToOrderedACKTags".toList := by
        rw [same, Shape.helperName, String.toList_append]
        exact List.prefix_append _ _
      exact absurd isFront (by decide)

end Line

/-! ### Comparisons of tags -/

namespace Check

mutual

/-- The sites whose values a check compares as tags. -/
def tagSites : Check → List Site
  | .tags site => [site]
  | .present _ inside => tagSitesOf inside
  | .sized _ inside => tagSitesOf inside
  | .eachIndex _ inside => tagSitesOf inside
  | .eachEntry _ inside => tagSitesOf inside
  | .remark _ inside => tagSitesOf inside
  | _ => []

/-- The sites whose values checks compare as tags, in order. -/
def tagSitesOf : List Check → List Site
  | [] => []
  | check :: rest => check.tagSites ++ tagSitesOf rest

end

theorem mem_tagSitesOf {site : Site} {checks : List Check} :
    site ∈ tagSitesOf checks ↔ ∃ check ∈ checks, site ∈ check.tagSites := by
  induction checks with
  | nil => simp [tagSitesOf]
  | cons check rest ih => simp [tagSitesOf, ih]

theorem mem_tagSitesOf_flatMap {α : Type} {site : Site} {items : List α}
    {checks : α → List Check} :
    site ∈ tagSitesOf (items.flatMap checks) ↔ ∃ item ∈ items, site ∈ tagSitesOf (checks item) := by
  simp only [mem_tagSitesOf, List.mem_flatMap]
  constructor
  · rintro ⟨check, ⟨item, listed, inChecks⟩, isTag⟩
    exact ⟨item, listed, check, inChecks, isTag⟩
  · rintro ⟨item, listed, check, inChecks, isTag⟩
    exact ⟨check, ⟨item, listed, inChecks⟩, isTag⟩

theorem mem_tagSitesOf_guarded {shape : Shape} {site tagged : Site} {inside : List Check}
    (isTag : tagged ∈ tagSitesOf (guarded shape site inside)) : tagged ∈ tagSitesOf inside := by
  unfold guarded at isTag
  split at isTag
  · simpa [tagSitesOf, tagSites] using isTag
  · exact isTag

variable {root : Site} {action : Site → String} {plain : Shape → Prop}

mutual

/-- Only a comparison of tags calls the function that converts them. -/
theorem tagSites_ne_nil (wholeRoot : root.IsWhole)
    (words : ∀ shape, plain shape → Text.IsWord shape.name)
    (silent : ∀ blocks site, Site.Reached root blocks site → ¬Line.ConvertsTags (action site))
    {blocks : List String} : (check : Check) → (level : Nat) → check.Sound root plain blocks →
      ∀ line ∈ Code.linesOf (check.code action) level,
        Line.ConvertsTags line.text → check.tagSites ≠ []
  | .tags site, _, _ => by
      intro line _ _
      simp [tagSites]
  | .present site inside, level, ⟨reached, sound⟩ => by
      have whole := reached.isWhole wholeRoot
      have ofInside := tagSitesOf_ne_nil wholeRoot words silent inside (level + 1) sound
      rw [code, tagSites, Code.forall_linesOf_singleton, Code.forall_lines_branch,
        Code.forall_linesOf_singleton, Code.forall_lines_line]
      refine ⟨?_, fun called => absurd called (silent _ _ reached), ?_, ofInside, ?_⟩
      · intro called
        simp [Line.ConvertsTags, Line.calls_missing whole.1 whole.2] at called
      · intro called
        have noCalls := Line.calls_present whole
        rw [Site.presentHeader] at noCalls
        simp [Line.ConvertsTags, noCalls] at called
      · exact fun called => absurd called Line.not_convertsTags_end
  | .unequal site test, level, ⟨reached, _, plainShapes⟩ => by
      have noCall := Line.not_convertsTags_condition (reached.isWhole wholeRoot)
        (fun shape same => words shape (plainShapes shape same))
      rw [code, Code.forall_linesOf_singleton, Code.forall_lines_block,
        Code.forall_linesOf_singleton, Code.forall_lines_line]
      exact ⟨fun called => absurd called noCall, fun called => absurd called (silent _ _ reached),
        fun called => absurd called Line.not_convertsTags_end⟩
  | .sized site inside, level, ⟨reached, sound⟩ => by
      have whole := reached.isWhole wholeRoot
      have noCall : ¬Line.ConvertsTags ("if " ++ Test.length.condition site ++ " \x7b") :=
        Line.not_convertsTags_condition whole (by simp)
      have ofInside := tagSitesOf_ne_nil wholeRoot words silent inside (level + 1) sound
      rw [code, tagSites, Code.forall_linesOf_singleton, Code.forall_lines_branch,
        Code.forall_linesOf_singleton, Code.forall_lines_line]
      refine ⟨fun called => absurd called noCall, fun called => absurd called (silent _ _ reached),
        ?_, ofInside, fun called => absurd called Line.not_convertsTags_end⟩
      intro called
      simp [Line.ConvertsTags, Line.calls_nonempty whole.1] at called
  | .keys site, level, reached => by
      have whole := Site.Reached.isWhole wholeRoot reached
      have wholeKey := (reached.index (by decide : Text.IsWord "k")).isWhole wholeRoot
      rw [code, Code.forall_linesOf_singleton, Code.forall_lines_block,
        Code.forall_linesOf_singleton, Code.forall_lines_block, Code.forall_linesOf_singleton,
        Code.forall_lines_line]
      refine ⟨?_, ⟨?_, fun called => absurd called (silent _ _ reached),
        fun called => absurd called Line.not_convertsTags_end⟩,
        fun called => absurd called Line.not_convertsTags_end⟩
      · intro called
        simp [Line.ConvertsTags, Line.calls_eachKey whole.1] at called
      · intro called
        simp [Line.ConvertsTags, Line.calls_lacksKey wholeKey] at called
  | .eachIndex site inside, level, ⟨reached, sound⟩ => by
      have whole := reached.isWhole wholeRoot
      have ofInside := tagSitesOf_ne_nil wholeRoot words silent inside (level + 1) sound
      rw [code, tagSites, Code.forall_linesOf_singleton, Code.forall_lines_block]
      refine ⟨?_, ofInside, fun called => absurd called Line.not_convertsTags_end⟩
      intro called
      simp [Line.ConvertsTags, Line.calls_eachIndex whole.1] at called
  | .eachEntry site inside, level, ⟨reached, sound⟩ => by
      have whole := reached.isWhole wholeRoot
      have wholeKey := (reached.index (by decide : Text.IsWord "k")).isWhole wholeRoot
      have ofInside := tagSitesOf_ne_nil wholeRoot words silent inside (level + 1) sound
      rw [code, tagSites, Code.forall_linesOf_singleton, Code.forall_lines_block,
        Code.forall_linesOf_cons, Code.forall_lines_line]
      refine ⟨?_, ⟨?_, ofInside⟩, fun called => absurd called Line.not_convertsTags_end⟩
      · intro called
        simp [Line.ConvertsTags, Line.calls_eachEntry whole.1] at called
      · intro called
        simp [Line.ConvertsTags, Line.calls_entryValue wholeKey] at called
  | .todo what, level, phrase => by
      rw [code, Code.forall_linesOf_singleton, Code.forall_lines_line]
      intro called
      simp [Line.ConvertsTags, Line.calls_todo phrase] at called
  | .remark text inside, level, impossible => impossible.elim
  | .rejected path key, level, _ => by
      simp [code, Code.linesOf]

theorem tagSitesOf_ne_nil (wholeRoot : root.IsWhole)
    (words : ∀ shape, plain shape → Text.IsWord shape.name)
    (silent : ∀ blocks site, Site.Reached root blocks site → ¬Line.ConvertsTags (action site))
    {blocks : List String} : (checks : List Check) → (level : Nat) →
      SoundOf root plain blocks checks → ∀ line ∈ Code.linesOf (codeOf action checks) level,
        Line.ConvertsTags line.text → tagSitesOf checks ≠ []
  | [], level, _ => by
      simp [codeOf, Code.linesOf]
  | check :: rest, level, ⟨sound, restSound⟩ => by
      have ofCheck := tagSites_ne_nil wholeRoot words silent check level sound
      have ofRest := tagSitesOf_ne_nil wholeRoot words silent rest level restSound
      rw [codeOf, tagSitesOf, Code.linesOf_append, List.forall_mem_append]
      constructor
      · intro line membership called
        exact List.append_ne_nil_of_left_ne_nil (ofCheck line membership called) _
      · intro line membership called
        exact List.append_ne_nil_of_right_ne_nil _ (ofRest line membership called)

end

mutual

/-- Each comparison of tags calls the function that converts them. -/
theorem exists_convertsTags (wholeRoot : root.IsWhole) {blocks : List String} {tagged : Site} :
    (check : Check) → (level : Nat) → check.Sound root plain blocks → tagged ∈ check.tagSites →
      ∃ line ∈ Code.linesOf (check.code action) level, Line.ConvertsTags line.text
  | .tags site, level, reached, _ => by
      have whole := Site.Reached.isWhole wholeRoot reached
      exact ⟨⟨level, _⟩, by simp [code, Code.linesOf, Code.lines],
        Line.convertsTags_firstTags whole.1⟩
  | .present site inside, level, ⟨_, sound⟩, isTag => by
      rcases exists_convertsTags_of wholeRoot inside (level + 1) sound isTag with
        ⟨line, inside, called⟩
      exact ⟨line, by simp [code, Code.linesOf, Code.lines, inside], called⟩
  | .sized site inside, level, ⟨_, sound⟩, isTag => by
      rcases exists_convertsTags_of wholeRoot inside (level + 1) sound isTag with
        ⟨line, inside, called⟩
      exact ⟨line, by simp [code, Code.linesOf, Code.lines, inside], called⟩
  | .eachIndex site inside, level, ⟨_, sound⟩, isTag => by
      rcases exists_convertsTags_of wholeRoot inside (level + 1) sound isTag with
        ⟨line, inside, called⟩
      exact ⟨line, by simp [code, Code.linesOf, Code.lines, inside], called⟩
  | .eachEntry site inside, level, ⟨_, sound⟩, isTag => by
      rcases exists_convertsTags_of wholeRoot inside (level + 1) sound isTag with
        ⟨line, inside, called⟩
      exact ⟨line, by simp [code, Code.linesOf, Code.lines, inside], called⟩
  | .remark text inside, _, impossible, _ => impossible.elim
  | .unequal site test, _, _, isTag => absurd isTag (by simp [tagSites])
  | .keys site, _, _, isTag => absurd isTag (by simp [tagSites])
  | .todo what, _, _, isTag => absurd isTag (by simp [tagSites])
  | .rejected path key, _, _, isTag => absurd isTag (by simp [tagSites])

theorem exists_convertsTags_of (wholeRoot : root.IsWhole) {blocks : List String} {tagged : Site} :
    (checks : List Check) → (level : Nat) → SoundOf root plain blocks checks →
      tagged ∈ tagSitesOf checks →
        ∃ line ∈ Code.linesOf (codeOf action checks) level, Line.ConvertsTags line.text
  | [], _, _, isTag => absurd isTag (by simp [tagSitesOf])
  | check :: rest, level, ⟨sound, restSound⟩, isTag => by
      rw [codeOf, Code.linesOf_append]
      rcases List.mem_append.mp isTag with ofCheck | ofRest
      · rcases exists_convertsTags wholeRoot check level sound ofCheck with ⟨line, listed, called⟩
        exact ⟨line, List.mem_append_left _ listed, called⟩
      · rcases exists_convertsTags_of wholeRoot rest level restSound ofRest with
          ⟨line, listed, called⟩
        exact ⟨line, List.mem_append_right _ listed, called⟩

end

end Check

namespace Strategy

open Check

variable {strategy : Strategy} {tagged : Site}

/-- Whether the checks of a collection compare no tags but those of its elements or values. -/
structure PassesTags (strategy : Strategy) : Prop where
  sequence : ∀ {site tagged : Site} {element : Shape} {checks : Site → List Check},
    tagged ∈ tagSitesOf (strategy.sequence site element checks) →
      ∃ inner, tagged ∈ tagSitesOf (checks inner)
  mapping : ∀ {site tagged : Site} {value : Shape} {checks : Site → List Check},
    tagged ∈ tagSitesOf (strategy.mapping site value checks) →
      ∃ inner, tagged ∈ tagSitesOf (checks inner)

theorem isTagField_of_mem_member {shape : Shape} {site : Site} {inside : List Check}
    (ofInside : tagged ∈ tagSitesOf inside → strategy.isTagField tagged.path = true)
    (isTag : tagged ∈ tagSitesOf (strategy.member shape site inside)) :
    strategy.isTagField tagged.path = true := by
  unfold member at isTag
  split at isTag
  · simp [tagSitesOf] at isTag
  · split at isTag
    · rename_i holdsTags
      have same : tagged = site := by simpa [tagSitesOf, tagSites] using isTag
      rw [same]
      exact holdsTags
    · exact ofInside (mem_tagSitesOf_guarded isTag)

mutual

/-- The checks of a shape compare values as tags only where the tag field is. -/
theorem isTagField_of_mem_body (passes : strategy.PassesTags) : (shape : Shape) →
    (site : Site) → tagged ∈ tagSitesOf (strategy.body shape site) →
      strategy.isTagField tagged.path = true
  | .scalar name kind, site, isTag => by
      simp [body, tagSitesOf, tagSites] at isTag
  | .struct name members, site, isTag => by
      rw [body, inNameOrder, mem_tagSitesOf_flatMap] at isTag
      rcases isTag with ⟨entry, listed, isTag⟩
      exact isTagField_of_mem_members passes members site entry (Text.mem_sortedBy.mp listed) isTag
  | .sequence name element, site, isTag => by
      rw [body] at isTag
      rcases passes.sequence isTag with ⟨inner, ofElement⟩
      exact isTagField_of_mem_body passes element inner ofElement
  | .mapping name key value, site, isTag => by
      rw [body] at isTag
      split at isTag
      · rcases passes.mapping isTag with ⟨inner, ofValue⟩
        exact isTagField_of_mem_body passes value inner ofValue
      · simp [tagSitesOf, tagSites] at isTag

theorem isTagField_of_mem_members (passes : strategy.PassesTags) :
    (members : List (String × Shape)) → (site : Site) →
      ∀ entry ∈ strategy.members members site, tagged ∈ tagSitesOf entry.2 →
        strategy.isTagField tagged.path = true
  | [], site => by
      simp [members]
  | (name, shape) :: rest, site => by
      rw [members, List.forall_mem_cons]
      refine ⟨?_, isTagField_of_mem_members passes rest site⟩
      exact isTagField_of_mem_member (isTagField_of_mem_body passes shape _)

end

/-- A comparison of a resource compares values as tags only where the tag field is. -/
theorem isTagField_of_mem_resource (passes : strategy.PassesTags) {resource : Resource}
    {first second : String}
    (isTag : tagged ∈ tagSitesOf (strategy.resource resource first second)) :
    strategy.isTagField tagged.path = true := by
  rw [Strategy.resource, mem_tagSitesOf_flatMap] at isTag
  rcases isTag with ⟨field, _, isTag⟩
  unfold outermost at isTag
  split at isTag
  · simp [tagSitesOf, tagSites] at isTag
  · exact isTagField_of_mem_member (isTagField_of_mem_body passes field.shape _) isTag

end Strategy

namespace Delta

open Check

theorem passesTags_strategy (resource : Resource) (normalizer : Normalizer)
    (tagPath : Option FieldPath) : (strategy resource normalizer tagPath).PassesTags where
  sequence := by
    intro site tagged element checks isTag
    have none : tagSitesOf (sequenceChecks site element) = [] := by
      unfold sequenceChecks
      split <;> simp [tagSitesOf, tagSites]
    simp [strategy, tagSitesOf, tagSites, none] at isTag
  mapping := by
    intro site tagged value checks isTag
    have none : tagSitesOf (mappingChecks site value) = [] := by
      unfold mappingChecks
      split <;> simp [tagSitesOf, tagSites]
    simp [strategy, tagSitesOf, tagSites, none] at isTag

end Delta

namespace Equality

open Check

theorem tagSitesOf_helperCall (shape : Shape) (site : Site) :
    tagSitesOf (helperCall shape site) = [] := by
  unfold helperCall guarded
  split <;> simp [tagSitesOf, tagSites]

theorem passesTags_strategyWith (normalizer : Normalizer)
    (isIgnored isTagField : FieldPath → Bool) :
    (strategyWith normalizer isIgnored isTagField).PassesTags where
  sequence := by
    intro site tagged element checks isTag
    cases element with
    | scalar name kind =>
        have ofElement : tagged ∈ tagSitesOf (guarded (.scalar name kind) (site.index "i")
            (checks (site.index "i"))) := by
          simpa [strategyWith, elementChecks, tagSitesOf, tagSites] using isTag
        exact ⟨site.index "i", mem_tagSitesOf_guarded ofElement⟩
    | struct name members =>
        simp [strategyWith, elementChecks, tagSitesOf, tagSites, tagSitesOf_helperCall] at isTag
    | sequence name element => simp [strategyWith, elementChecks, tagSitesOf, tagSites] at isTag
    | mapping name key value => simp [strategyWith, elementChecks, tagSitesOf, tagSites] at isTag
  mapping := by
    intro site tagged value checks isTag
    cases value with
    | scalar name kind =>
        have ofValue : tagged ∈ tagSitesOf (guarded (.scalar name kind) (site.held "av" "bv")
            (checks (site.held "av" "bv"))) := by
          simpa [strategyWith, valueChecks, tagSitesOf, tagSites] using isTag
        exact ⟨site.held "av" "bv", mem_tagSitesOf_guarded ofValue⟩
    | struct name members =>
        simp [strategyWith, valueChecks, tagSitesOf, tagSites, tagSitesOf_helperCall] at isTag
    | sequence name element => simp [strategyWith, valueChecks, tagSitesOf, tagSites] at isTag
    | mapping name key value => simp [strategyWith, valueChecks, tagSitesOf, tagSites] at isTag

end Equality

end Reconcile
