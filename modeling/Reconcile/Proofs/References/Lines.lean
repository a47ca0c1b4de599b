import Reconcile.Proofs.Code.Variables
import Reconcile.References.Code

/-!
# Lines of reference code

Which names the lines of reference code use, given that the names and settings that they are made
of are words.
-/

namespace Reconcile

open Line

namespace Reference

/-- Whether a name is one of those that loops over sequences declare. -/
def isLoopVariable (name : String) : Bool :=
  match name.toList with
  | 'f' :: rest =>
      !(rest.takeWhile Char.isDigit).isEmpty &&
        (rest.dropWhile Char.isDigit == ['i', 't', 'e', 'r'] ||
          rest.dropWhile Char.isDigit == ['i', 'd', 'x'])
  | _ => false

example : ["f0iter", "f12idx", "fiter", "f0", "f0iters", "for"].map isLoopVariable =
    [true, true, false, false, false, false] := by
  decide +kernel

end Reference

open Reference

namespace Line

variable {first second : Access} {left right : String}

/-- Whether a test of an expression has the names of the expression only. -/
structure IsTest (test : Access → String) : Prop where
  calm : ∀ access : Access, access.IsPlain → Text.IsCalm (test access)
  noQuote : ∀ access : Access, access.IsPlain → '"' ∉ (test access).toList
  names : ∀ access : Access, access.IsPlain →
    namesIn (test access).toList = access.names ++ ["nil"]

theorem isTest_isPresent : IsTest Access.isPresent where
  calm _ plain := plain.calm.append (by decide)
  noQuote _ plain := by simp [Access.isPresent, plain.noQuote]
  names _ plain := by
    simp [Access.isPresent, namesIn, gather, plain.gather_text, Text.isWordLetter, ended,
      Context.behind]

theorem isTest_isAbsent : IsTest Access.isAbsent where
  calm _ plain := plain.calm.append (by decide)
  noQuote _ plain := by simp [Access.isAbsent, plain.noQuote]
  names _ plain := by
    simp [Access.isAbsent, namesIn, gather, plain.gather_text, Text.isWordLetter, ended,
      Context.behind]

theorem IsTest.gather_text {test : Access → String} (isTest : IsTest test) (plain : first.IsPlain)
    {letter : Char} (separates : Text.isWordLetter letter = false) (rest : List Char) :
    gather .name [] ((test first).toList ++ letter :: rest) =
      first.names ++ "nil" :: gather (.behind letter) [] rest := by
  rw [gather_cut (isTest.noQuote first plain) (by decide) separates, ← namesIn,
    isTest.names first plain, List.append_assoc, List.singleton_append]

theorem uses_test {test : Access → String} (isTest : IsTest test) (plain : first.IsPlain) :
    uses ("if " ++ test first ++ " \x7b") = "if" :: (first.names ++ ["nil"]) := by
  simp [uses, isLoop, namesIn, gather, isTest.gather_text plain, Text.isWordLetter, ended,
    Context.behind]

theorem uses_tests {test : Access → String} (isTest : IsTest test) (plain : first.IsPlain)
    (secondPlain : second.IsPlain) :
    uses ("if " ++ test first ++ " && " ++ test second ++ " \x7b") =
      "if" :: (first.names ++ "nil" :: (second.names ++ ["nil"])) := by
  simp [uses, isLoop, namesIn, gather, isTest.gather_text plain, isTest.gather_text secondPlain,
    Text.isWordLetter, ended, Context.behind]

theorem uses_length (plain : first.IsPlain) :
    uses ("if len(" ++ first.text ++ ") > 0" ++ " \x7b") =
      "if" :: "len" :: (first.names ++ ["0"]) := by
  simp [uses, isLoop, namesIn, gather, plain.gather_text, Text.isWordLetter, ended, Context.behind]

theorem uses_found (plain : first.IsPlain) :
    uses ("arr := " ++ first.text) = "arr" :: first.names := by
  have names := Access.names_eq first plain
  rw [namesIn] at names
  simp [uses, isLoop, namesIn, gather, names, Text.isWordLetter, ended, Context.behind]

theorem uses_conflict (leftClean : '"' ∉ left.toList) (rightClean : '"' ∉ right.toList) :
    uses ("return ackerr.ResourceReferenceAndIDNotSupportedFor(\"" ++ left ++ "\", \"" ++ right ++
      "\")") = ["return", "ackerr"] := by
  simp [uses, isLoop, namesIn, gather, gather_text leftClean, gather_text rightClean,
    Text.isWordLetter, ended, Context.behind]

theorem uses_lack (leftClean : '"' ∉ left.toList) (rightClean : '"' ∉ right.toList) :
    uses ("return ackerr.ResourceReferenceOrIDRequiredFor(\"" ++ left ++ "\", \"" ++ right ++
      "\")") = ["return", "ackerr"] := by
  simp [uses, isLoop, namesIn, gather, gather_text leftClean, gather_text rightClean,
    Text.isWordLetter, ended, Context.behind]

theorem uses_unset (clean : '"' ∉ left.toList) :
    uses ("return hasReferences, fmt.Errorf(\"provided resource reference is nil or empty: " ++
      left ++ "\")") = ["return", "hasReferences", "fmt"] := by
  simp [uses, isLoop, namesIn, gather, gather_text clean, Text.isWordLetter, ended, Context.behind]

theorem uses_unsynced (clean : '"' ∉ left.toList) :
    uses ("ackrtlog.FromContext(ctx).Debug(\"referenced resource is not synced\", " ++
      "\"reference\", \"" ++ left ++ "\")") = ["ackrtlog", "ctx"] := by
  simp [uses, isLoop, namesIn, gather, gather_text clean, Text.isWordLetter, ended, Context.behind]

theorem uses_missing (leftClean : '"' ∉ left.toList) (rightClean : '"' ∉ right.toList) :
    uses ("return hasReferences, ackerr.ResourceReferenceMissingTargetFieldFor(\"" ++ left ++
      "\", namespace, *arr.Name, \"" ++ right ++ "\")") =
        ["return", "hasReferences", "ackerr", "namespace", "arr"] := by
  simp [uses, isLoop, namesIn, gather, gather_text leftClean, gather_text rightClean,
    Text.isWordLetter, ended, Context.behind]

theorem uses_object (leftWord : Text.IsWord left) (nonempty : left ≠ "")
    (rightWord : Text.IsWord right) :
    uses ("obj := &" ++ left ++ "." ++ right ++ "\x7b\x7d") = ["obj", left] := by
  simp [uses, isLoop, namesIn, gather, gather_append leftWord, gather_append rightWord,
    Text.isWordLetter, ended, Context.behind, nonempty]

theorem uses_call (isWord : Text.IsWord right) (nonempty : right ≠ "") :
    uses ("if err := " ++ right ++ "(ctx, apiReader, obj, *arr.Name, namespace); err != nil" ++
      " \x7b") =
        ["if", "err", right, "ctx", "apiReader", "obj", "arr", "namespace", "err", "nil"] := by
  simp [uses, isLoop, namesIn, gather, gather_append isWord, Text.isWordLetter, ended,
    Context.behind, nonempty]

/-- A line that starts with a member of a value is no loop. -/
theorem isLoop_member (plain : first.IsPlain) {text name : String} (isWord : Text.IsWord name)
    (begins : (first.member name).text.toList ++ [' '] <+: text.toList) : isLoop text = false := by
  have noBlank : ' ' ∉ (first.member name).text.toList :=
    (Access.IsPlain.isWhole (first.member name) ⟨plain, isWord⟩).not_mem (by decide)
  have isFront : ∀ letter ∈ (first.member name).text.toList, (letter != ' ') = true := by
    intro letter isLetter
    exact bne_iff_ne.mpr (fun blank => noBlank (blank ▸ isLetter))
  rw [← Bool.not_eq_true, isLoop, List.isPrefixOf_iff_prefix]
  rintro ⟨tail, isText⟩
  rcases begins with ⟨rest, isTextToo⟩
  -- Up to its first blank the line is the expression, which has a dot.
  have fronts := congrArg (List.takeWhile (· != ' ')) (isText.trans isTextToo.symm)
  rw [List.append_assoc, List.takeWhile_append_of_pos isFront] at fronts
  have hasDot : '.' ∈ (first.member name).text.toList := by simp [Access.text]
  have front : ['f', 'o', 'r'] = (first.member name).text.toList := by simpa using fronts
  rw [← front] at hasDot
  exact absurd hasDot (by decide)

/-- The value in another resource. -/
theorem gather_value (dotted : Text.IsDotted right) (rest : List Char) :
    gather .name [] ((Access.member (.root "obj") right).text.toList ++ ')' :: rest) =
      "obj" :: gather .name [] rest := by
  have noQuote : '"' ∉ right.toList := dotted.not_mem (by decide) (by decide)
  simp [Access.text, gather, gather_cut noQuote, gather_member dotted, Text.isWordLetter, ended,
    Context.behind]

variable {name : String}

theorem uses_reset (plain : first.IsPlain) (isWord : Text.IsWord name) :
    uses ((first.member name).text ++ " = nil") = first.names ++ ["nil"] := by
  have whole : (first.member name).IsPlain := ⟨plain, isWord⟩
  rw [uses, isLoop_member plain isWord (by simp)]
  simp [namesIn, gather, whole.gather_text, Text.isWordLetter, ended, Context.behind, Access.names]

theorem uses_make (plain : first.IsPlain) (isWord : Text.IsWord name) (clean : '"' ∉ left.toList) :
    uses ((first.member name).text ++ " = make([]" ++ left ++ ", 0, 1)") =
      first.names ++ "make" :: (namesIn left.toList ++ ["0", "1"]) := by
  have whole : (first.member name).IsPlain := ⟨plain, isWord⟩
  rw [uses, isLoop_member plain isWord (by simp)]
  simp [namesIn, gather, whole.gather_text, gather_cut clean, Text.isWordLetter, ended,
    Context.behind, Access.names]

theorem uses_append (plain : first.IsPlain) (isWord : Text.IsWord name) (clean : '"' ∉ left.toList)
    (dotted : Text.IsDotted right) :
    uses ((first.member name).text ++ " = append(" ++ (first.member name).text ++ ", (" ++ left ++
      ")(" ++ (Access.member (.root "obj") right).text ++ "))") =
      first.names ++ "append" :: (first.names ++ (namesIn left.toList ++ ["obj"])) := by
  have whole : (first.member name).IsPlain := ⟨plain, isWord⟩
  rw [uses, isLoop_member plain isWord (by simp)]
  simp [namesIn, gather, whole.gather_text, gather_cut clean, gather_value dotted,
    Text.isWordLetter, ended, Context.behind, Access.names]

theorem uses_assign (plain : first.IsPlain) (isWord : Text.IsWord name) (clean : '"' ∉ left.toList)
    (dotted : Text.IsDotted right) :
    uses ((first.member name).text ++ " = (" ++ left ++ ")(" ++
      (Access.member (.root "obj") right).text ++ ")") =
      first.names ++ (namesIn left.toList ++ ["obj"]) := by
  have whole : (first.member name).IsPlain := ⟨plain, isWord⟩
  rw [uses, isLoop_member plain isWord (by simp)]
  simp [namesIn, gather, whole.gather_text, gather_cut clean, gather_value dotted,
    Text.isWordLetter, ended, Context.behind, Access.names]

/-! ### Loops -/

section

variable {index each : String}

theorem loop_parts (indexWord : Text.IsWord index) (eachWord : Text.IsWord each)
    (access : Access) : ∃ header : String,
      header = "for " ++ index ++ ", " ++ each ++ " := range " ++ access.text ++ " \x7b" ∧
      isLoop header = true ∧
      (header.toList.drop 4).takeWhile (· != ':') =
        index.toList ++ ',' :: ' ' :: (each.toList ++ [' ']) ∧
      header.toList.dropWhile (· != ':') =
        ':' :: '=' :: ' ' :: 'r' :: 'a' :: 'n' :: 'g' :: 'e' :: ' ' ::
          (access.text.toList ++ [' ', '\x7b']) := by
  have front : ∀ {word : String}, Text.IsWord word →
      ∀ letter ∈ word.toList, (letter != ':') = true := by
    intro word isWord letter isLetter
    exact bne_iff_ne.mpr (fun colon => isWord.not_mem (by decide) (colon ▸ isLetter))
  refine ⟨_, rfl, ?_, ?_, ?_⟩
  · simp [isLoop]
  · simp [List.takeWhile_append_of_pos (front indexWord),
      List.takeWhile_append_of_pos (front eachWord)]
  · simp [List.dropWhile_append_of_pos (front indexWord),
      List.dropWhile_append_of_pos (front eachWord)]

theorem declares_each (indexWord : Text.IsWord index) (eachWord : Text.IsWord each)
    (indexNonempty : index ≠ "") (eachNonempty : each ≠ "") (access : Access) :
    declares ("for " ++ index ++ ", " ++ each ++ " := range " ++ access.text ++ " \x7b") =
      [index, each].filter (· != "_") := by
  rcases loop_parts indexWord eachWord access with ⟨header, rfl, loops, front, _⟩
  rw [declares, if_pos loops, front]
  congr 1
  simp [namesIn, gather, gather_append indexWord, gather_append eachWord, indexNonempty,
    eachNonempty, Text.isWordLetter, ended, Context.behind]

theorem uses_each (indexWord : Text.IsWord index) (eachWord : Text.IsWord each)
    (plain : first.IsPlain) :
    uses ("for " ++ index ++ ", " ++ each ++ " := range " ++ first.text ++ " \x7b") =
      "range" :: first.names := by
  rcases loop_parts indexWord eachWord first with ⟨header, rfl, loops, _, behind⟩
  rw [uses, if_pos loops, behind]
  simp [namesIn, gather, plain.gather_text, Text.isWordLetter, ended, Context.behind]

end

/-! ### Chains of tests -/

section

variable {path : List String} {rest : List Char}

/-- The names in tests of the members along a path, with glue between them. -/
theorem gather_chain {test : Access → String} {glue : List Char} {letter : Char}
    (isTest : IsTest test)
    (skips : ∀ rest, gather .name [] (glue ++ rest) = gather .name [] rest) (plain : first.IsPlain)
    (words : ∀ name ∈ path, Text.IsWord name) (nonempty : path ≠ [])
    (separates : Text.isWordLetter letter = false) :
    gather .name [] ((' ' :: glue).intercalate (((first.along path).map test).map String.toList) ++
        letter :: rest) =
      path.flatMap (fun _ => first.names ++ ["nil"]) ++ gather (.behind letter) [] rest := by
  induction path generalizing first with
  | nil => exact absurd rfl nonempty
  | cons name others ih =>
      rcases List.forall_mem_cons.mp words with ⟨isWord, othersWords⟩
      have whole := plain.member isWord
      cases others with
      | nil => simp [Access.along, isTest.gather_text whole separates, Access.names]
      | cons next later =>
          have behind := @ih (first.member name) whole othersWords (List.cons_ne_nil _ _)
          rw [Access.along, List.map_cons, List.map_cons] at behind
          have blank : Context.behind ' ' = .name := by decide
          rw [Access.along, Access.along, List.map_cons, List.map_cons, List.map_cons,
            List.map_cons, List.intercalate_cons_cons, List.append_assoc, List.append_assoc,
            List.cons_append, isTest.gather_text whole (by decide), blank, skips, behind,
            List.flatMap_cons]
          simp [Access.names]

theorem calm_chain {test : Access → String} {glue : String} (isTest : IsTest test)
    (glueCalm : Text.IsCalm glue) (plain : first.IsPlain)
    (words : ∀ name ∈ path, Text.IsWord name) :
    Text.IsCalm (glue.intercalate ((first.along path).map test)) := by
  apply Text.IsCalm.intercalate glueCalm
  intro text isText
  rcases List.mem_map.mp isText with ⟨step, isStep, rfl⟩
  exact isTest.calm step (plain.along words step isStep)

theorem gather_presenceChain (plain : first.IsPlain) (words : ∀ name ∈ path, Text.IsWord name)
    (nonempty : path ≠ []) :
    gather .name [] ((Access.presenceChain first path).toList ++ ')' :: rest) =
      path.flatMap (fun _ => first.names ++ ["nil"]) ++ gather .name [] rest := by
  have skips : ∀ rest, gather .name [] (['&', '&', ' '] ++ rest) = gather .name [] rest := by
    simp [gather, Text.isWordLetter, ended, Context.behind]
  have separates : Text.isWordLetter ')' = false := by decide
  have chained := @gather_chain first path rest _ _ _ isTest_isPresent skips plain words nonempty
    separates
  rw [Access.presenceChain, String.toList_intercalate]
  exact chained

theorem gather_absenceChain (plain : first.IsPlain) (words : ∀ name ∈ path, Text.IsWord name)
    (nonempty : path ≠ []) :
    gather .name [] ((Access.absenceChain first path).toList ++ ' ' :: rest) =
      path.flatMap (fun _ => first.names ++ ["nil"]) ++ gather .name [] rest := by
  have skips : ∀ rest, gather .name [] (['|', '|', ' '] ++ rest) = gather .name [] rest := by
    simp [gather, Text.isWordLetter, ended, Context.behind]
  have separates : Text.isWordLetter ' ' = false := by decide
  have chained := @gather_chain first path rest _ _ _ isTest_isAbsent skips plain words nonempty
    separates
  rw [Access.absenceChain, String.toList_intercalate]
  exact chained

theorem uses_absenceChain (plain : first.IsPlain) (words : ∀ name ∈ path, Text.IsWord name)
    (nonempty : path ≠ []) : uses ("if " ++ Access.absenceChain first path ++ " \x7b") =
      "if" :: path.flatMap (fun _ => first.names ++ ["nil"]) := by
  simp [uses, isLoop, namesIn, gather, gather_absenceChain plain words nonempty, Text.isWordLetter,
    ended, Context.behind]

/-- The names in conditions that are put one behind the other. -/
theorem uses_presenceChains {paths : List (List String)} (plain : first.IsPlain)
    (words : ∀ path ∈ paths, path ≠ [] ∧ ∀ name ∈ path, Text.IsWord name) :
    uses ("return false" ++ String.join (paths.map (fun path =>
        " || (" ++ Access.presenceChain first path ++ ")"))) =
      "return" :: "false" :: paths.flatMap (fun path =>
        path.flatMap (fun _ => first.names ++ ["nil"])) := by
  have chains : gather .name [] (String.join (paths.map (fun path =>
      " || (" ++ Access.presenceChain first path ++ ")"))).toList =
      paths.flatMap (fun path => path.flatMap (fun _ => first.names ++ ["nil"])) := by
    induction paths with
    | nil => rfl
    | cons path others ih =>
        rcases List.forall_mem_cons.mp words with ⟨⟨nonempty, isWords⟩, othersWords⟩
        have later := ih othersWords
        simp only [List.map_cons, String.join_cons, String.toList_append, List.flatMap_cons,
          ← later]
        simp [gather, gather_presenceChain plain isWords nonempty, Text.isWordLetter, ended,
          Context.behind]
  rw [← chains]
  cases paths with
  | nil => simp [uses, isLoop, namesIn, gather, Text.isWordLetter, ended, Context.behind]
  | cons path others =>
      simp [uses, isLoop, namesIn, gather, Text.isWordLetter, ended, Context.behind]

end

end Line

/-! ### Types -/

namespace Shape

/-- Whether the name of the structure that a type is made of is a word. -/
def TypeIsWord : Shape → Prop
  | .scalar .. => True
  | .struct name _ => Text.IsWord name
  | .sequence _ element => element.TypeIsWord
  | .mapping _ _ value => value.TypeIsWord

def decideTypeIsWord : (shape : Shape) → Decidable shape.TypeIsWord
  | .scalar .. => isTrue trivial
  | .struct name _ => inferInstanceAs (Decidable (Text.IsWord name))
  | .sequence _ element => element.decideTypeIsWord
  | .mapping _ _ value => value.decideTypeIsWord

instance (shape : Shape) : Decidable shape.TypeIsWord :=
  shape.decideTypeIsWord

/-- Whether a text may stand in a type: it holds no quote and no brace, and no loop variable. -/
structure IsTypeText (text : String) : Prop where
  calm : Text.IsCalm text
  noQuote : '"' ∉ text.toList
  names : ∀ name ∈ namesIn text.toList, isLoopVariable name = false

theorem isTypeText_goElementType (kind : ScalarKind) : IsTypeText kind.goElementType := by
  constructor <;> cases kind <;> decide +kernel

theorem isTypeText_scalar (kind : ScalarKind) : IsTypeText kind.goType := by
  constructor <;> cases kind <;> decide +kernel

theorem isTypeText_goType : (shape : Shape) → shape.TypeIsWord → IsTypeText shape.goType
  | .scalar _ kind, _ => isTypeText_scalar kind
  | .struct name _, isWord => by
      have noQuote : '"' ∉ name.toList := isWord.not_mem (by decide)
      have calm : Text.IsCalm name := .of_isWhole (Term.isWhole_of_isWord isWord)
      refine ⟨Text.IsCalm.append (by decide) calm, by simp [goType, noQuote], ?_⟩
      simp [goType, namesIn, gather, gather_word isWord, Text.isWordLetter, ended, Context.behind,
        isLoopVariable]
  | .sequence name element, isWord => by
      have inner := isTypeText_goType element isWord
      have names : namesIn (goType (.sequence name element)).toList =
          namesIn element.goType.toList := by
        simp [goType, namesIn, gather, Text.isWordLetter, ended, Context.behind]
      refine ⟨Text.IsCalm.append (by decide) inner.calm, by simp [goType, inner.noQuote], ?_⟩
      rw [names]
      exact inner.names
  | .mapping name key value, isWord => by
      have inner := isTypeText_goType value isWord
      have ofKey := isTypeText_goElementType key
      have names : namesIn (goType (.mapping name key value)).toList =
          "map" :: (namesIn key.goElementType.toList ++ namesIn value.goType.toList) := by
        simp [goType, namesIn, gather, gather_cut ofKey.noQuote, Text.isWordLetter, ended,
          Context.behind]
      have noMap : isLoopVariable "map" = false := by decide
      have front : Text.IsCalm ("map[" ++ key.goElementType ++ "]") :=
        (Text.IsCalm.append (by decide) ofKey.calm).append (by decide)
      refine ⟨front.append inner.calm, by simp [goType, inner.noQuote, ofKey.noQuote], ?_⟩
      rw [names]
      exact List.forall_mem_cons.mpr
        ⟨noMap, List.forall_mem_append.mpr ⟨ofKey.names, inner.names⟩⟩

end Shape

end Reconcile
