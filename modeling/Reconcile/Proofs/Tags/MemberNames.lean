import Reconcile.Proofs.Code.Selections
import Reconcile.Proofs.Resource.Members
import Reconcile.Proofs.Tags.Conversion

/-!
# Member names in conversions of tags

The conversion of a list of tags selects two members of each element and sets two members of each
tag that it builds. The names of these members are read off the texts of both directions
(`Tags.UsesNames`). They are the names that the members have in the schema, whereas the members are
registered below the tag field under their exported names. So the conversion uses the registered
names exactly if the normalizer leaves both names as they are (`Tags.uses_exported_iff`).
-/

namespace Reconcile

namespace Resource

variable {resource : Resource} {field : Field}

/-- A tag field is found by its path among the fields of desired state. -/
theorem field?_of_tagField (found : resource.tagField = .ok (some field)) :
    resource.field? .spec resource.settings.tags.path = some field := by
  simp only [tagField] at found
  split at found
  · simp at found
  · split at found
    · rename_i other foundOther
      cases found
      exact foundOther
    · split at found <;> simp at found

end Resource

/-! ### Names in lines -/

namespace Term

variable {operand other key value : String}

theorem selects_eq (name : String) : "t" ++ ("." ++ name) = "t." ++ name := by
  simp [← String.toList_inj]

theorem ofLine_isEmpty (whole : IsWhole operand) :
    ofLine ("if len(" ++ operand ++ ") == 0" ++ " \x7b") =
      [⟨'\n', "if", ' '⟩, ⟨' ', "len", '('⟩] ++
        (close '(' operand.toList ')' ++ [⟨' ', "0", ' '⟩]) := by
  simp [ofLine, scan_append whole, scan, isLetter, Text.isWordLetter, close]

theorem ofLine_return (whole : IsWhole operand) (otherWhole : IsWhole other) :
    ofLine ("return " ++ operand ++ ", " ++ other) =
      [⟨'\n', "return", ' '⟩] ++ (close ' ' operand.toList ',' ++
        close ' ' other.toList '\n') := by
  simp [ofLine, scan_append whole, scan_whole otherWhole, scan, isLetter, Text.isWordLetter, close]

theorem ofLine_eachTag (whole : IsWhole operand) :
    ofLine ("for _, t := range " ++ operand ++ " \x7b") =
      [⟨'\n', "for", ' '⟩, ⟨' ', "_", ','⟩, ⟨' ', "t", ' '⟩, ⟨' ', "range", ' '⟩] ++
        close ' ' operand.toList ' ' := by
  simp [ofLine, scan_append whole, scan, isLetter, Text.isWordLetter, close]

theorem ofLine_hasMember (keyWhole : IsWhole key) :
    ofLine ("if t." ++ key ++ " != nil" ++ " \x7b") =
      [⟨'\n', "if", ' '⟩, ⟨' ', "t." ++ key, ' '⟩, ⟨' ', "nil", ' '⟩] := by
  simp [ofLine, scan_append keyWhole, scan, isLetter, Text.isWordLetter,
    close, selects_eq]

theorem ofLine_recordKey (whole : IsWhole operand) (keyWhole : IsWhole key) :
    ofLine (operand ++ " = append(" ++ operand ++ ", *t." ++ key ++ ")") =
      close '\n' operand.toList ' ' ++ ([⟨' ', "append", '('⟩] ++
        (close '(' operand.toList ',' ++ [⟨'*', "t." ++ key, ')'⟩])) := by
  simp [ofLine, scan_append whole, scan_append keyWhole, scan, isLetter, Text.isWordLetter,
    close, selects_eq]

theorem ofLine_assignValue (whole : IsWhole operand) (keyWhole : IsWhole key)
    (valueWhole : IsWhole value) :
    ofLine (operand ++ "[*t." ++ key ++ "] = *t." ++ value) =
      [⟨'\n', operand ++ "[", '*'⟩, ⟨'*', "t." ++ key ++ "]", ' '⟩,
        ⟨'*', "t." ++ value, '\n'⟩] := by
  simp [ofLine, scan_append whole, scan_append keyWhole, scan_whole valueWhole, scan, isLetter,
    Text.isWordLetter, close, selects_eq, String.append_assoc]

theorem ofLine_assignEmpty (whole : IsWhole operand) (keyWhole : IsWhole key) :
    ofLine (operand ++ "[*t." ++ key ++ "] = \"\"") =
      [⟨'\n', operand ++ "[", '*'⟩, ⟨'*', "t." ++ key ++ "]", ' '⟩] := by
  simp [ofLine, scan_append whole, scan_append keyWhole, scan, isLetter, Text.isWordLetter,
    close, selects_eq, String.append_assoc]

/-- The member of the variable `t` that a term selects or goes through, if it does. -/
def elementMember? (term : Term) : Option String :=
  match Access.selections term.text with
  | root :: name :: _ => if root = "t" then some name else none
  | _ => none

end Term

namespace Tags

/-- Whether an expression is made of words and dots and does not start at the variable `t`. -/
def IsOperand (text : String) : Prop :=
  Text.IsDotted text ∧ (Text.split '.' text).head? ≠ some "t"

instance (text : String) : Decidable (IsOperand text) :=
  inferInstanceAs (Decidable (Text.IsDotted text ∧ (Text.split '.' text).head? ≠ some "t"))

/-- The members of the variable `t` that a line selects, in order. -/
def elementMembers (text : String) : List String :=
  (Term.ofLine text).filterMap Term.elementMember?

variable {operand other key value : String}

theorem selections_bracket {text bracket : String} (dotted : Text.IsDotted text)
    (isBracket : bracket = "[" ∨ bracket = "]") :
    Access.selections (text ++ bracket) = Text.split '.' text := by
  rw [Access.selections, String.toList_append,
    Access.outside_append (Access.noBracket_of_isDotted dotted)]
  rcases isBracket with rfl | rfl <;> simp [Access.outside, Text.split]

theorem split_element (word : Text.IsWord key) : Text.split '.' ("t." ++ key) = ["t", key] := by
  have single : Text.split '.' "t" = ["t"] := by decide
  rw [← Term.selects_eq, ← String.append_assoc, Access.split_member word, single]
  rfl

theorem isDotted_member (word : Text.IsWord key) : Text.IsDotted ("t." ++ key) :=
  Text.IsDotted.append (by decide) word.isDotted

theorem elementMember?_member (word : Text.IsWord key) (before after : Char) :
    Term.elementMember? ⟨before, "t." ++ key, after⟩ = some key := by
  rw [Term.elementMember?, Access.selections_of_isDotted (isDotted_member word), split_element word]
  rfl

theorem elementMember?_index (word : Text.IsWord key) (before after : Char) :
    Term.elementMember? ⟨before, "t." ++ key ++ "]", after⟩ = some key := by
  rw [Term.elementMember?, selections_bracket (isDotted_member word) (Or.inr rfl),
    split_element word]
  rfl

theorem elementMember?_of_head {term : Term}
    (apart : (Access.selections term.text).head? ≠ some "t") : term.elementMember? = none := by
  unfold Term.elementMember?
  split
  · rename_i root name rest cut
    rw [cut, List.head?_cons, ne_eq, Option.some.injEq] at apart
    rw [if_neg apart]
  · rfl

theorem elementMember?_collection (isOperand : IsOperand operand) (before after : Char) :
    Term.elementMember? ⟨before, operand ++ "[", after⟩ = none := by
  apply elementMember?_of_head
  rw [selections_bracket isOperand.1 (Or.inl rfl)]
  exact isOperand.2

theorem filterMap_close (isOperand : IsOperand operand) (before after : Char) :
    (Term.close before operand.toList after).filterMap Term.elementMember? = [] := by
  unfold Term.close
  split
  · rfl
  · have none : Term.elementMember? ⟨before, String.ofList operand.toList, after⟩ = none := by
      apply elementMember?_of_head
      rw [String.ofList_toList, Access.selections_of_isDotted isOperand.1]
      exact isOperand.2
    rw [List.filterMap_cons, none, List.filterMap_nil]

/-- A word selects nothing. -/
theorem elementMember?_word {word : String} (isWord : Text.IsWord word) (before after : Char) :
    Term.elementMember? ⟨before, word, after⟩ = none := by
  have noDot : '.' ∉ word.toList := isWord.not_mem (by decide)
  rw [Term.elementMember?, Access.selections_of_isDotted isWord.isDotted,
    Text.split_of_not_mem noDot]

section

variable (isOperand : IsOperand operand)
include isOperand

theorem elementMembers_isEmpty :
    elementMembers ("if len(" ++ operand ++ ") == 0" ++ " \x7b") = [] := by
  simp (disch := decide) only [elementMembers,
    Term.ofLine_isEmpty (Term.isWhole_of_isDotted isOperand.1), List.filterMap_append,
    List.filterMap_cons, List.filterMap_nil, filterMap_close isOperand, elementMember?_word,
    List.append_nil]

theorem elementMembers_return (otherOperand : IsOperand other) :
    elementMembers ("return " ++ operand ++ ", " ++ other) = [] := by
  simp (disch := decide) only [elementMembers, Term.ofLine_return
    (Term.isWhole_of_isDotted isOperand.1) (Term.isWhole_of_isDotted otherOperand.1),
    List.filterMap_append, List.filterMap_cons, List.filterMap_nil, filterMap_close isOperand,
    filterMap_close otherOperand, elementMember?_word, List.append_nil]

theorem elementMembers_eachTag :
    elementMembers ("for _, t := range " ++ operand ++ " \x7b") = [] := by
  simp (disch := decide) only [elementMembers,
    Term.ofLine_eachTag (Term.isWhole_of_isDotted isOperand.1), List.filterMap_append,
    List.filterMap_cons, List.filterMap_nil, filterMap_close isOperand, elementMember?_word,
    List.append_nil]

theorem elementMembers_recordKey (word : Text.IsWord key) :
    elementMembers (operand ++ " = append(" ++ operand ++ ", *t." ++ key ++ ")") = [key] := by
  simp (disch := decide) only [elementMembers,
    Term.ofLine_recordKey (Term.isWhole_of_isDotted isOperand.1) (Term.isWhole_of_isWord word),
    List.filterMap_append, List.filterMap_cons, List.filterMap_nil, filterMap_close isOperand,
    elementMember?_word, elementMember?_member word, List.nil_append]

theorem elementMembers_assignValue (word : Text.IsWord key) (valueWord : Text.IsWord value) :
    elementMembers (operand ++ "[*t." ++ key ++ "] = *t." ++ value) = [key, value] := by
  simp only [elementMembers,
    Term.ofLine_assignValue (Term.isWhole_of_isDotted isOperand.1) (Term.isWhole_of_isWord word)
      (Term.isWhole_of_isWord valueWord), List.filterMap_cons, List.filterMap_nil,
    elementMember?_collection isOperand, elementMember?_index word,
    elementMember?_member valueWord]

theorem elementMembers_assignEmpty (word : Text.IsWord key) :
    elementMembers (operand ++ "[*t." ++ key ++ "] = \"\"") = [key] := by
  simp only [elementMembers,
    Term.ofLine_assignEmpty (Term.isWhole_of_isDotted isOperand.1) (Term.isWhole_of_isWord word),
    List.filterMap_cons, List.filterMap_nil, elementMember?_collection isOperand,
    elementMember?_index word]

end

theorem elementMembers_hasMember (word : Text.IsWord key) :
    elementMembers ("if t." ++ key ++ " != nil" ++ " \x7b") = [key] := by
  simp (disch := decide) only [elementMembers, Term.ofLine_hasMember (Term.isWhole_of_isWord word),
    List.filterMap_cons, List.filterMap_nil, elementMember?_word, elementMember?_member word]

/-! ### Names in texts -/

/-- Whether a text selects a member of the variable `t`. -/
def SelectsMember (text name : String) : Prop :=
  ∃ line ∈ Line.readAll text, name ∈ elementMembers line.text

/-- Whether a line declares the variable `tag`. -/
def DeclaresTag (text : String) : Prop :=
  "tag := ".toList <+: text.toList

/-- The line that builds a tag from the variables `k` and `v`. -/
def tagLine (element key value : String) : String :=
  "tag := svcapitypes." ++ element ++ "\x7b" ++ key ++ ": &k, " ++ value ++ ": &v\x7d"

/--
Whether the two directions of a conversion use names for the key and the value of a tag: these are
the members that are selected of an element, the value is entered under the key, and tags are built
with the key and the value under them.
-/
structure UsesNames (reading writing target element key value : String) : Prop where
  selected : ∀ name, SelectsMember reading name ↔ name = key ∨ name = value
  entered : ∃ line ∈ Line.readAll reading,
    line.text = target ++ "[*t." ++ key ++ "] = *t." ++ value
  builds : ∃ line ∈ Line.readAll writing, DeclaresTag line.text
  built : ∀ line ∈ Line.readAll writing, DeclaresTag line.text →
    line.text = tagLine element key value

theorem texts_toCanonicalCode (element : Shape) (key value source target order : String)
    (level : Nat) :
    (Code.linesOf ((TagRepresentation.pairs element key value).toCanonicalCode source target order)
      level).map Line.text = [
        "if len(" ++ source ++ ") == 0" ++ " \x7b",
        "return " ++ target ++ ", " ++ order,
        "\x7d",
        "for _, t := range " ++ source ++ " \x7b",
        "if t." ++ key ++ " != nil" ++ " \x7b",
        order ++ " = append(" ++ order ++ ", *t." ++ key ++ ")",
        "if t." ++ value ++ " != nil" ++ " \x7b",
        target ++ "[*t." ++ key ++ "] = *t." ++ value,
        "\x7d " ++ "else" ++ " \x7b",
        target ++ "[*t." ++ key ++ "] = \"\"",
        "\x7d", "\x7d", "\x7d"] := by
  rfl

theorem texts_ofCanonicalCode (element : Shape) (key value tags order target : String)
    (level : Nat) :
    (Code.linesOf ((TagRepresentation.pairs element key value).ofCanonicalCode tags order target)
      level).map Line.text = [
        "for _, k := range " ++ order ++ " \x7b",
        "v, ok := " ++ tags ++ "[k]",
        "if ok" ++ " \x7b",
        tagLine element.goElementType key value,
        target ++ " = append(" ++ target ++ ", &tag)",
        "delete(" ++ tags ++ ", k)",
        "\x7d", "\x7d",
        "for k, v := range " ++ tags ++ " \x7b",
        tagLine element.goElementType key value,
        target ++ " = append(" ++ target ++ ", &tag)",
        "\x7d"] := by
  rfl

/-- Lines without breaks and tabs are read from their text as they are. -/
theorem readAll_of_texts {codes : List Code} {level : Nat}
    (flat : ∀ text ∈ (Code.linesOf codes level).map Line.text,
      '\n' ∉ text.toList ∧ '\t' ∉ text.toList) :
    (Line.readAll (Code.renderBehindBlank codes level)).map Line.text =
      "" :: (Code.linesOf codes level).map Line.text := by
  rw [Code.readAll_renderBehindBlank]
  · rfl
  · intro line isLine
    rcases flat _ (List.mem_map_of_mem isLine) with ⟨noBreak, noTab⟩
    exact ⟨noBreak, fun isHead => noTab (List.mem_of_mem_head? isHead)⟩

theorem noBreak_of_isDotted {text : String} (dotted : Text.IsDotted text) :
    '\n' ∉ text.toList ∧ '\t' ∉ text.toList :=
  ⟨dotted.not_mem (by decide) (by decide), dotted.not_mem (by decide) (by decide)⟩

variable {source target order tags element : String}

section

variable (keyWord : Text.IsWord key) (valueWord : Text.IsWord value)
include keyWord valueWord

theorem readAll_toCanonicalCode (sourceDotted : Text.IsDotted source)
    (targetDotted : Text.IsDotted target) (orderDotted : Text.IsDotted order) (shape : Shape)
    (level : Nat) :
    (Line.readAll (Code.renderBehindBlank
        ((TagRepresentation.pairs shape key value).toCanonicalCode source target order)
        level)).map Line.text =
      "" :: (Code.linesOf ((TagRepresentation.pairs shape key value).toCanonicalCode source target
        order) level).map Line.text := by
  apply readAll_of_texts
  have ofSource := noBreak_of_isDotted sourceDotted
  have ofTarget := noBreak_of_isDotted targetDotted
  have ofOrder := noBreak_of_isDotted orderDotted
  have ofKey := noBreak_of_isDotted keyWord.isDotted
  have ofValue := noBreak_of_isDotted valueWord.isDotted
  rw [texts_toCanonicalCode]
  simp [ofSource, ofTarget, ofOrder, ofKey, ofValue]

theorem noBreak_tagLine (elementDotted : Text.IsDotted element) :
    '\n' ∉ (tagLine element key value).toList ∧ '\t' ∉ (tagLine element key value).toList := by
  have ofElement := noBreak_of_isDotted elementDotted
  have ofKey := noBreak_of_isDotted keyWord.isDotted
  have ofValue := noBreak_of_isDotted valueWord.isDotted
  unfold tagLine
  simp [ofElement, ofKey, ofValue]

theorem readAll_ofCanonicalCode (tagsDotted : Text.IsDotted tags)
    (orderDotted : Text.IsDotted order) (targetDotted : Text.IsDotted target) {shape : Shape}
    (shapeDotted : Text.IsDotted shape.goElementType) (level : Nat) :
    (Line.readAll (Code.renderBehindBlank
        ((TagRepresentation.pairs shape key value).ofCanonicalCode tags order target)
        level)).map Line.text =
      "" :: (Code.linesOf ((TagRepresentation.pairs shape key value).ofCanonicalCode tags order
        target) level).map Line.text := by
  apply readAll_of_texts
  have ofTags := noBreak_of_isDotted tagsDotted
  have ofOrder := noBreak_of_isDotted orderDotted
  have ofTarget := noBreak_of_isDotted targetDotted
  have ofTag := noBreak_tagLine keyWord valueWord shapeDotted
  rw [texts_ofCanonicalCode]
  simp [ofTag, ofTags, ofOrder, ofTarget]

/-- The first direction selects the two members of the representation and no others. -/
theorem selectsMember_iff (sourceOperand : IsOperand source) (targetOperand : IsOperand target)
    (orderOperand : IsOperand order) (shape : Shape) (level : Nat) (name : String) :
    SelectsMember (Code.renderBehindBlank
      ((TagRepresentation.pairs shape key value).toCanonicalCode source target order) level) name ↔
        name = key ∨ name = value := by
  have texts := readAll_toCanonicalCode keyWord valueWord sourceOperand.1 targetOperand.1
    orderOperand.1 shape level
  have quiet : elementMembers "" = [] ∧ elementMembers "\x7d" = [] ∧
      elementMembers ("\x7d " ++ "else" ++ " \x7b") = [] := by decide
  rw [texts_toCanonicalCode] at texts
  have inTexts : ∀ text : String, SelectsMember text name ↔
      ∃ line ∈ (Line.readAll text).map Line.text, name ∈ elementMembers line := by
    simp [SelectsMember]
  rw [inTexts, texts]
  simp only [List.mem_cons, exists_eq_or_imp, quiet, elementMembers_isEmpty sourceOperand,
    elementMembers_return targetOperand orderOperand, elementMembers_eachTag sourceOperand,
    elementMembers_hasMember keyWord, elementMembers_hasMember valueWord,
    elementMembers_recordKey orderOperand keyWord,
    elementMembers_assignValue targetOperand keyWord valueWord,
    elementMembers_assignEmpty targetOperand keyWord]
  simp only [List.not_mem_nil, false_or, or_false]
  grind

end

/-- A line that appends to an expression declares no variable. -/
theorem not_declaresTag_append (dotted : Text.IsDotted target) :
    ¬DeclaresTag (target ++ " = append(" ++ target ++ ", &tag)") := by
  rintro ⟨others, same⟩
  have noBlank : ' ' ∉ target.toList := dotted.not_mem (by decide) (by decide)
  have left : "tag := ".toList ++ others = "tag".toList ++ ' ' :: (":=".toList ++ ' ' :: others) :=
    rfl
  have right : (target ++ " = append(" ++ target ++ ", &tag)").toList =
      target.toList ++ ' ' :: ("=".toList ++ ' ' :: ("append(" ++ target ++ ", &tag)").toList) := by
    simp
  have cut := congrArg (Text.pieces ' ') same
  rw [left, right, Text.pieces_append_separator (by decide),
    Text.pieces_append_separator (by decide), Text.pieces_append_separator noBlank,
    Text.pieces_append_separator (by decide)] at cut
  simp at cut

theorem declaresTag_tagLine : DeclaresTag (tagLine element key value) := by
  unfold DeclaresTag tagLine
  simp

/-- The second direction declares tags with the two members of the representation. -/
theorem eq_tagLine_of_declaresTag (targetDotted : Text.IsDotted target) (shape : Shape)
    (level : Nat) :
    ∀ text ∈ "" :: (Code.linesOf ((TagRepresentation.pairs shape key value).ofCanonicalCode tags
      order target) level).map Line.text,
        DeclaresTag text → text = tagLine shape.goElementType key value := by
  have appends := not_declaresTag_append targetDotted
  have others : ¬DeclaresTag "" ∧ ¬DeclaresTag ("for _, k := range " ++ order ++ " \x7b") ∧
      ¬DeclaresTag ("v, ok := " ++ tags ++ "[k]") ∧ ¬DeclaresTag "if ok \x7b" ∧
        ¬DeclaresTag ("delete(" ++ tags ++ ", k)") ∧ ¬DeclaresTag "\x7d" ∧
          ¬DeclaresTag ("for k, v := range " ++ tags ++ " \x7b") := by
    simp [DeclaresTag]
  rw [texts_ofCanonicalCode]
  simp [others, appends]

/-- The line that builds a tag tells the names of its members. -/
theorem tagLine_injective {otherKey otherValue : String} (keyWord : Text.IsWord key)
    (otherWord : Text.IsWord otherKey)
    (same : tagLine element key value = tagLine element otherKey otherValue) :
    key = otherKey ∧ value = otherValue := by
  have noColon : ':' ∉ key.toList := keyWord.not_mem (by decide)
  have otherNoColon : ':' ∉ otherKey.toList := otherWord.not_mem (by decide)
  have letters : key.toList ++ ':' :: (" &k, " ++ value ++ ": &v\x7d").toList =
      otherKey.toList ++ ':' :: (" &k, " ++ otherValue ++ ": &v\x7d").toList := by
    unfold tagLine at same
    simpa [← String.toList_inj] using same
  have cut := congrArg (Text.pieces ':') letters
  rw [Text.pieces_append_separator noColon, Text.pieces_append_separator otherNoColon,
    List.cons.injEq] at cut
  have keys := String.toList_inj.mp cut.1
  subst keys
  refine ⟨rfl, ?_⟩
  simpa [← String.toList_inj] using letters

/-- A conversion uses one pair of names. -/
theorem UsesNames.unique {reading writing otherKey otherValue : String}
    (uses : UsesNames reading writing target element key value)
    (usesOther : UsesNames reading writing target element otherKey otherValue)
    (keyWord : Text.IsWord key) (otherWord : Text.IsWord otherKey) :
    key = otherKey ∧ value = otherValue := by
  rcases uses.builds with ⟨line, isLine, declares⟩
  apply tagLine_injective keyWord otherWord
  exact (uses.built line isLine declares).symm.trans (usesOther.built line isLine declares)

/-- Both directions use the names of a representation. -/
theorem usesNames_pairs {restoredTags replayed restored : String} (keyWord : Text.IsWord key)
    (valueWord : Text.IsWord value) (sourceOperand : IsOperand source)
    (targetOperand : IsOperand target) (orderOperand : IsOperand order)
    (tagsDotted : Text.IsDotted restoredTags) (replayedDotted : Text.IsDotted replayed)
    (restoredDotted : Text.IsDotted restored) {shape : Shape}
    (shapeDotted : Text.IsDotted shape.goElementType) (readLevel writeLevel : Nat) :
    UsesNames
      (Code.renderBehindBlank ((TagRepresentation.pairs shape key value).toCanonicalCode source
        target order) readLevel)
      (Code.renderBehindBlank ((TagRepresentation.pairs shape key value).ofCanonicalCode
        restoredTags replayed restored) writeLevel)
      target shape.goElementType key value := by
  have readings := readAll_toCanonicalCode keyWord valueWord sourceOperand.1 targetOperand.1
    orderOperand.1 shape readLevel
  have writings := readAll_ofCanonicalCode keyWord valueWord tagsDotted replayedDotted
    restoredDotted shapeDotted writeLevel
  refine ⟨selectsMember_iff keyWord valueWord sourceOperand targetOperand orderOperand shape
    readLevel, ?_, ?_, ?_⟩
  · apply List.mem_map.mp
    rw [readings, texts_toCanonicalCode]
    simp
  · have isText : tagLine shape.goElementType key value ∈ (Line.readAll (Code.renderBehindBlank
        ((TagRepresentation.pairs shape key value).ofCanonicalCode restoredTags replayed restored)
        writeLevel)).map Line.text := by
      rw [writings, texts_ofCanonicalCode]
      simp
    rcases List.mem_map.mp isText with ⟨line, isLine, text⟩
    exact ⟨line, isLine, text ▸ declaresTag_tagLine⟩
  · intro line isLine
    apply eq_tagLine_of_declaresTag restoredDotted shape writeLevel line.text
    rw [← writings]
    exact List.mem_map_of_mem isLine

variable {definition : ResourceDefinition} {settings : Settings} {normalizer : Normalizer}
  {resource : Resource} {field : Field} {listName keyName valueName reading writing : String}
  {shape : Shape}

theorem goElementType_of_member? {member : String × Shape}
    (found : shape.member? keyName = some member) : shape.goElementType = shape.name := by
  cases shape with
  | struct name members => rfl
  | scalar name kind => cases found
  | sequence name element => cases found
  | mapping name key value => cases found

/-- A member that is found in the elements of a list is below that. -/
theorem mem_of_member? {member : String × Shape} (isList : field.shape = .sequence listName shape)
    (found : shape.member? keyName = some member) : member ∈ field.shape.membersBelow := by
  rw [isList]
  cases shape with
  | struct name members =>
      rcases Option.or_eq_some_iff.mp found with same | ⟨_, similar⟩
      · exact List.mem_of_find?_eq_some same
      · exact List.mem_of_find?_eq_some similar
  | scalar name kind => cases found
  | sequence name element => cases found
  | mapping name key value => cases found

/-- Tags in a list are converted with the names of the two members that were found. -/
theorem exists_pairs {code other : TagRepresentation → List Code} {readLevel writeLevel : Nat}
    (found : resource.tagField = .ok (some field)) (isList : field.shape = .sequence listName shape)
    (read : renderFor resource readLevel code = .ok reading)
    (written : renderFor resource writeLevel other = .ok writing) :
    ∃ key value, shape.member? resource.settings.tags.keyName = some key ∧
      shape.member? resource.settings.tags.valueName = some value ∧
        reading = Code.renderBehindBlank (code (.pairs shape key.1 value.1)) readLevel ∧
          writing = Code.renderBehindBlank (other (.pairs shape key.1 value.1)) writeLevel := by
  have holds : field.shape.HoldsTags resource.settings.tags.keyName
      resource.settings.tags.valueName := by
    by_contra holdsNot
    rw [renderFor_of_not_holdsTags found holdsNot] at read
    cases read
  rcases holds with ⟨_, _, same, hasKey, hasValue⟩ | ⟨_, _, same⟩
  · cases isList.symm.trans same
    rcases Option.isSome_iff_exists.mp hasKey with ⟨key, isKey⟩
    rcases Option.isSome_iff_exists.mp hasValue with ⟨value, isValue⟩
    refine ⟨key, value, isKey, isValue, ?_⟩
    simp only [renderFor, TagRepresentation.ofResource, not_ignore_of_found found, found, isList,
      TagRepresentation.ofShape?, isKey, isValue, bind, Except.bind, pure, Except.pure,
      Option.bind_some, Bool.false_eq_true, if_false, Except.ok.injEq] at read written
    exact ⟨read.symm, written.symm⟩
  · cases isList.symm.trans same

/--
The conversion of tags in a list uses the names that the key and the value have in the schema. They
are registered below the tag field under their exported names, and the conversion uses these exactly
if the normalizer leaves both names as they are.
-/
theorem uses_exported_iff {source target order restoredTags replayed restored : String}
    {readLevel writeLevel : Nat}
    (joined : Resource.ofDefinition definition settings normalizer = .ok resource)
    (found : resource.tagField = .ok (some field)) (noReference : field.isReference = false)
    (isList : field.shape = .sequence listName shape) (shapeWord : Text.IsWord shape.name)
    (words : ∀ member ∈ field.shape.membersBelow,
      Text.IsWord member.1 ∧ Text.IsWord (normalizer member.1).exported)
    (sourceOperand : IsOperand source) (targetOperand : IsOperand target)
    (orderOperand : IsOperand order) (tagsDotted : Text.IsDotted restoredTags)
    (replayedDotted : Text.IsDotted replayed) (restoredDotted : Text.IsDotted restored)
    (read : toCanonical resource source target order readLevel = .ok reading)
    (written : ofCanonical resource restoredTags replayed restored writeLevel = .ok writing) :
    ∃ key value, shape.member? resource.settings.tags.keyName = some key ∧
      shape.member? resource.settings.tags.valueName = some value ∧
      UsesNames reading writing target shape.name key.1 value.1 ∧
      (field.path.child (normalizer key.1).exported).text ∈ resource.specFields.keys ∧
      (field.path.child (normalizer value.1).exported).text ∈ resource.specFields.keys ∧
      (UsesNames reading writing target shape.name (normalizer key.1).exported
          (normalizer value.1).exported ↔
        (normalizer key.1).exported = key.1 ∧ (normalizer value.1).exported = value.1) := by
  rcases exists_pairs found isList read written with
    ⟨key, value, isKey, isValue, rfl, rfl⟩
  have listed : field ∈ resource.specFields.values :=
    Resource.mem_of_field? (Resource.field?_of_tagField found)
  have keyBelow := mem_of_member? isList isKey
  have valueBelow := mem_of_member? isList isValue
  have typeName := goElementType_of_member? isKey
  rcases words key keyBelow with ⟨keyWord, exportedWord⟩
  have uses := usesNames_pairs keyWord (words value valueBelow).1 sourceOperand targetOperand
    orderOperand tagsDotted replayedDotted restoredDotted (typeName ▸ shapeWord.isDotted) readLevel
    writeLevel
  rw [typeName] at uses
  refine ⟨key, value, isKey, isValue, uses,
    Resource.child_mem_keys joined listed noReference keyBelow,
    Resource.child_mem_keys joined listed noReference valueBelow, ?_⟩
  constructor
  · intro usesExported
    exact usesExported.unique uses exportedWord keyWord
  · rintro ⟨sameKey, sameValue⟩
    rw [sameKey, sameValue]
    exact uses

/-- Desired state with a list of structures whose members have lower-case names. -/
def lowerTags : ResourceDefinition where
  name := "Queue"
  spec := .struct "QueueSpec" [
    ("Tags", .sequence "TagList" (.struct "Tag" [
      ("key", Shape.scalarOf .string), ("value", Shape.scalarOf .string)]))]
  status := none
  operations := ∅

/-- Members with lower-case names are registered with capitals, but not used so. -/
theorem uses_exported_iff_lower :
    ∃ resource reading writing,
      Resource.ofDefinition lowerTags {} .default = .ok resource ∧
      toCanonical resource "tags" "result" "keyOrder" 1 = .ok reading ∧
      ofCanonical resource "tags" "keyOrder" "result" 1 = .ok writing ∧
      "Tags.Key" ∈ resource.specFields.keys ∧ "Tags.Value" ∈ resource.specFields.keys ∧
      UsesNames reading writing "result" "Tag" "key" "value" ∧
      ¬UsesNames reading writing "result" "Tag" "Key" "Value" := by
  have facts : ∃ resource ∈ (Resource.ofDefinition lowerTags {} .default).toOption,
      resource.settings.tags.keyName = "Key" ∧ resource.settings.tags.valueName = "Value" ∧
        ∃ tag ∈ resource.tagField.toOption, ∃ field ∈ tag,
          field.isReference = false ∧ field.path = ⟨["Tags"]⟩ := by
    decide +kernel
  have exported : (Normalizer.default "key").exported = "Key" ∧
      (Normalizer.default "value").exported = "Value" := by
    decide
  rcases facts with ⟨resource, made, keyName, valueName, tag, isTag, field, isField, noReference,
    path⟩
  cases Option.mem_def.mp isField
  have joined := Outcome.of_mem_toOption made
  have found := Outcome.of_mem_toOption isTag
  have isTop := Resource.mem_topLevelFields.mpr
    ⟨Resource.mem_of_field? (Resource.field?_of_tagField found), by rw [path]; rfl⟩
  rcases Resource.exists_member_of_outermost joined isTop noReference with
    ⟨_, _, spec, member, declared, shape⟩
  cases spec
  rw [List.mem_singleton] at declared
  subst declared
  have holds : field.shape.HoldsTags resource.settings.tags.keyName
      resource.settings.tags.valueName := by
    rw [shape, keyName, valueName]
    decide
  have converts : ∃ text,
      toCanonical resource "tags" "result" "keyOrder" 1 = .ok text ∧ text ≠ "" :=
    renderFor_of_holdsTags found holds
  have restores : ∃ text,
      ofCanonical resource "tags" "keyOrder" "result" 1 = .ok text ∧ text ≠ "" :=
    renderFor_of_holdsTags found holds
  rcases converts with ⟨reading, read, _⟩
  rcases restores with ⟨writing, written, _⟩
  rcases uses_exported_iff joined found noReference shape (by decide)
    (by rw [shape]; decide) (by decide) (by decide) (by decide) (by decide) (by decide)
    (by decide) read written with
      ⟨key, value, isKey, isValue, uses, keyListed, valueListed, agree⟩
  rw [keyName] at isKey
  rw [valueName] at isValue
  cases isKey
  cases isValue
  rw [exported.1, path] at keyListed
  rw [exported.2, path] at valueListed
  refine ⟨resource, reading, writing, joined, read, written, keyListed, valueListed, uses, ?_⟩
  intro usesExported
  rw [exported.1, exported.2] at agree
  exact absurd (agree.mp usesExported).1 (by decide)

end Tags

end Reconcile
