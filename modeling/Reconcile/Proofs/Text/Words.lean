import Reconcile.Text.Pieces

/-!
# Words

Identifiers of emitted code are words, and the expressions that callers supply are words with
dots between them. The facts here are what reading emitted code relies on: no word holds a
character that separates anything in a line, and a text is cut at its separators into exactly
the pieces it was put together from (`split_intercalate`).
-/

namespace Reconcile.Text

/-- Whether a character may stand in an identifier. All characters beyond ASCII may. -/
def isWordLetter (letter : Char) : Bool :=
  letter.isAlphanum || letter == '_' || decide (128 ≤ letter.toNat)

/-- A text of word letters only. -/
def IsWord (text : String) : Prop :=
  ∀ letter ∈ text.toList, isWordLetter letter = true

/-- A text of word letters and dots only. -/
def IsDotted (text : String) : Prop :=
  ∀ letter ∈ text.toList, isWordLetter letter = true ∨ letter = '.'

instance (text : String) : Decidable (IsWord text) :=
  List.decidableBAll (fun letter => isWordLetter letter = true) text.toList

instance (text : String) : Decidable (IsDotted text) :=
  List.decidableBAll (fun letter => isWordLetter letter = true ∨ letter = '.') text.toList

theorem IsWord.not_mem {text : String} (word : IsWord text) {letter : Char}
    (separates : isWordLetter letter = false) : letter ∉ text.toList := by
  intro membership
  have wordLetter := word letter membership
  rw [separates] at wordLetter
  exact Bool.noConfusion wordLetter

theorem IsDotted.not_mem {text : String} (dotted : IsDotted text) {letter : Char}
    (separates : isWordLetter letter = false) (noDot : letter ≠ '.') :
    letter ∉ text.toList := by
  intro membership
  rcases dotted letter membership with wordLetter | dot
  · rw [separates] at wordLetter
    exact Bool.noConfusion wordLetter
  · exact noDot dot

theorem IsDotted.noQuote {text : String} (dotted : IsDotted text) : '"' ∉ text.toList :=
  dotted.not_mem (by decide) (by decide)

theorem IsWord.isDotted {text : String} (word : IsWord text) : IsDotted text := by
  intro letter membership
  exact Or.inl (word letter membership)

theorem IsWord.append {left right : String} (leftWord : IsWord left) (rightWord : IsWord right) :
    IsWord (left ++ right) := by
  intro letter membership
  rw [String.toList_append, List.mem_append] at membership
  rcases membership with inLeft | inRight
  · exact leftWord letter inLeft
  · exact rightWord letter inRight

theorem IsDotted.append {left right : String} (leftDotted : IsDotted left)
    (rightDotted : IsDotted right) : IsDotted (left ++ right) := by
  intro letter membership
  rw [String.toList_append, List.mem_append] at membership
  rcases membership with inLeft | inRight
  · exact leftDotted letter inLeft
  · exact rightDotted letter inRight

theorem isDotted_intercalate {parts : List String} (words : ∀ part ∈ parts, IsWord part) :
    IsDotted (".".intercalate parts) := by
  induction parts with
  | nil =>
      intro letter membership
      simp at membership
  | cons part rest ih =>
      have restDotted := ih (fun other inRest => words other (List.mem_cons_of_mem _ inRest))
      have partDotted := (words part List.mem_cons_self).isDotted
      cases rest with
      | nil => simpa using partDotted
      | cons next others =>
          rw [String.intercalate_cons_cons]
          refine (partDotted.append ?_).append restDotted
          decide

/-! ### Written numbers -/

theorem isWord_toString (number : Nat) : IsWord (toString number) := by
  intro letter isLetter
  rw [Nat.toString_eq_ofList_toDigits, String.toList_ofList] at isLetter
  have isDigit := Nat.isDigit_of_mem_toDigits (by decide) (by decide) isLetter
  simp [isWordLetter, Char.isAlphanum, isDigit]

theorem eq_of_toString_eq {left right : Nat} (same : toString left = toString right) :
    left = right := by
  have numbers := congrArg (fun text => Nat.ofDigitChars 10 text.toList 0) same
  simpa [Nat.toString_eq_ofList_toDigits] using numbers

/-! ### Cutting at a separator -/

theorem pieces_of_not_mem {separator : Char} {letters : List Char} (clean : separator ∉ letters) :
    pieces separator letters = [letters] := by
  induction letters with
  | nil => rfl
  | cons letter rest ih =>
      rw [List.mem_cons, not_or] at clean
      rcases clean with ⟨different, cleanRest⟩
      rw [pieces, if_neg (Ne.symm different), ih cleanRest]

theorem pieces_append_separator {separator : Char} {letters : List Char}
    (clean : separator ∉ letters) (rest : List Char) :
    pieces separator (letters ++ separator :: rest) = letters :: pieces separator rest := by
  induction letters with
  | nil => simp [pieces]
  | cons letter others ih =>
      rw [List.mem_cons, not_or] at clean
      rcases clean with ⟨different, cleanOthers⟩
      rw [List.cons_append, pieces, if_neg (Ne.symm different), ih cleanOthers]

/-- A text is cut on both sides of each separator on its own. -/
theorem pieces_append (separator : Char) (left right : List Char) :
    pieces separator (left ++ separator :: right) =
      pieces separator left ++ pieces separator right := by
  induction left with
  | nil => simp [pieces]
  | cons letter rest ih =>
      by_cases same : letter = separator
      · simp [pieces, same, ih]
      · rw [List.cons_append, pieces, if_neg same, ih, pieces, if_neg same]
        cases found : pieces separator rest with
        | nil => exact absurd found (pieces_ne_nil separator rest)
        | cons piece others => rfl

theorem split_append (separator : Char) (left right : String) :
    split separator (left ++ String.singleton separator ++ right) =
      split separator left ++ split separator right := by
  simp [split, pieces_append]

theorem split_of_not_mem {separator : Char} {text : String} (clean : separator ∉ text.toList) :
    split separator text = [text] := by
  simp [split, pieces_of_not_mem clean]

theorem split_ne_nil (separator : Char) (text : String) : split separator text ≠ [] := by
  simp [split, pieces_ne_nil]

theorem pieces_intercalate {separator : Char} {parts : List (List Char)} (nonempty : parts ≠ [])
    (clean : ∀ part ∈ parts, separator ∉ part) :
    pieces separator ([separator].intercalate parts) = parts := by
  induction parts with
  | nil => exact absurd rfl nonempty
  | cons part rest ih =>
      have cleanPart := clean part List.mem_cons_self
      have cleanRest : ∀ other ∈ rest, separator ∉ other :=
        fun other membership => clean other (List.mem_cons_of_mem _ membership)
      cases rest with
      | nil => rw [List.intercalate_singleton, pieces_of_not_mem cleanPart]
      | cons next others =>
          rw [List.intercalate_cons_cons, List.append_assoc, List.singleton_append,
            pieces_append_separator cleanPart, ih (List.cons_ne_nil _ _) cleanRest]

/-- Texts without the separator are found again when they are cut apart. -/
theorem split_intercalate {separator : Char} {parts : List String} (nonempty : parts ≠ [])
    (clean : ∀ part ∈ parts, separator ∉ part.toList) :
    split separator ((String.singleton separator).intercalate parts) = parts := by
  have found : pieces separator ([separator].intercalate (parts.map String.toList)) =
      parts.map String.toList := by
    apply pieces_intercalate
    · simpa using nonempty
    · intro letters membership
      rcases List.mem_map.mp membership with ⟨part, partMem, rfl⟩
      exact clean part partMem
  rw [split, String.toList_intercalate, String.toList_singleton, found, List.map_map]
  simp [Function.comp_def]

/-- The letters of a piece are letters of the text, and none of them is the separator. -/
theorem mem_of_mem_pieces {separator letter : Char} {letters piece : List Char}
    (isPiece : piece ∈ pieces separator letters) (isLetter : letter ∈ piece) :
    letter ∈ letters ∧ letter ≠ separator := by
  induction letters generalizing piece with
  | nil =>
      rw [List.mem_singleton.mp isPiece] at isLetter
      exact absurd isLetter List.not_mem_nil
  | cons first rest ih =>
      by_cases same : first = separator
      · rw [pieces, if_pos same] at isPiece
        rcases List.mem_cons.mp isPiece with rfl | inRest
        · exact absurd isLetter List.not_mem_nil
        · exact (ih inRest isLetter).imp_left (List.mem_cons_of_mem _)
      · rw [pieces, if_neg same] at isPiece
        cases found : pieces separator rest with
        | nil => exact absurd found (pieces_ne_nil separator rest)
        | cons next others =>
            rw [found] at isPiece ih
            rcases List.mem_cons.mp isPiece with rfl | inOthers
            · rcases List.mem_cons.mp isLetter with rfl | inNext
              · exact ⟨List.mem_cons_self, same⟩
              · exact (ih List.mem_cons_self inNext).imp_left (List.mem_cons_of_mem _)
            · exact (ih (List.mem_cons_of_mem _ inOthers) isLetter).imp_left
                (List.mem_cons_of_mem _)

/-- No piece holds the separator. -/
theorem not_mem_of_mem_split {separator : Char} {text piece : String}
    (isPiece : piece ∈ split separator text) : separator ∉ piece.toList := by
  rcases List.mem_map.mp isPiece with ⟨letters, isLetters, rfl⟩
  rw [String.toList_ofList]
  exact fun isLetter => (mem_of_mem_pieces isLetters isLetter).2 rfl

/-- What stands between dots are words. -/
theorem isWord_of_mem_split {text piece : String} (dotted : IsDotted text)
    (isPiece : piece ∈ split '.' text) : IsWord piece := by
  rcases List.mem_map.mp isPiece with ⟨letters, isLetters, rfl⟩
  intro letter isLetter
  rw [String.toList_ofList] at isLetter
  rcases mem_of_mem_pieces isLetters isLetter with ⟨inText, noDot⟩
  exact (dotted letter inText).resolve_right noDot

theorem intercalate_split (separator : Char) (text : String) :
    (String.singleton separator).intercalate (split separator text) = text := by
  rw [← String.toList_inj, String.toList_intercalate, String.toList_singleton, split,
    List.map_map]
  have kept : String.toList ∘ String.ofList = id := by
    funext letters
    exact String.toList_ofList
  rw [kept, List.map_id, intercalate_pieces]

/-! ### Taking ends off -/

theorem dropEnd?_append (text ending : String) : dropEnd? ending (text ++ ending) = some text := by
  have isEnd : ending.toList.isSuffixOf (text ++ ending).toList = true := by
    rw [List.isSuffixOf_iff_suffix, String.toList_append]
    exact List.suffix_append _ _
  have length : (text ++ ending).length - ending.length = text.toList.length := by
    rw [String.length_append, Nat.add_sub_cancel, String.length_toList]
  rw [dropEnd?, if_pos isEnd, length, String.toList_append, List.take_left, String.ofList_toList]

end Reconcile.Text
