import Reconcile.Proofs.Code.Blocks

/-!
# Terms of a line

What a line of emitted code does to a value is read off its text: a line is cut into terms,
which are stretches of word letters, dots and indexes, and a term is told apart from another by
the characters next to it. A term behind a star is dereferenced; a term before a parenthesis
names a function, or a method of the value in front of its last dot; a term behind a quote is
a text.
-/

namespace Reconcile

/-- A stretch of a line with the characters next to it. -/
structure Term where
  before : Char
  text : String
  after : Char
  deriving DecidableEq, Repr

namespace Term

/-- Whether a character may stand in a term. -/
def isLetter (letter : Char) : Bool :=
  Text.isWordLetter letter || letter == '.' || letter == '[' || letter == ']'

/-- A term, if there are any letters. -/
def close (before : Char) (letters : List Char) (after : Char) : List Term :=
  if letters = [] then [] else [⟨before, String.ofList letters, after⟩]

/-- The terms of letters, given a term that has been begun. -/
def scan (before : Char) (begun : List Char) : List Char → List Term
  | [] => close before begun '\n'
  | letter :: rest =>
      if isLetter letter then scan before (begun ++ [letter]) rest
      else close before begun letter ++ scan letter [] rest

/-- The terms of the text of a line in order. Line ends stand next to the first and the last. -/
def ofLine (text : String) : List Term :=
  scan '\n' [] text.toList

/-- Whether a term names a method `Equal` of a value; the function `bytes.Equal` is none. -/
def IsMethod (term : Term) : Prop :=
  term.after = '(' ∧ ".Equal".toList <:+ term.text.toList ∧ term.text ≠ "bytes.Equal"

/--
Whether a term dereferences a value, selects a member of it or calls its method `Equal`. Texts
in quotes and the names of functions use no value.
-/
def Uses (term : Term) (value : String) : Prop :=
  term.before ≠ '"' ∧
    ((term.before = '*' ∧ term.text = value) ∨
      ∃ rest, term.text = value ++ "." ++ rest ∧ (term.after = '(' → term.IsMethod))

/-- Whether a text is the name of a helper function. -/
def IsHelperName (text : String) : Prop :=
  "equal".toList <+: text.toList ∧ Text.IsWord text

/-- Whether a term calls or declares a helper function. -/
def NamesHelper (term : Term) (helper : String) : Prop :=
  term.after = '(' ∧ term.text = helper ∧ IsHelperName helper

instance (term : Term) : Decidable term.IsMethod :=
  inferInstanceAs (Decidable
    (term.after = '(' ∧ ".Equal".toList <:+ term.text.toList ∧ term.text ≠ "bytes.Equal"))

instance (text : String) : Decidable (IsHelperName text) :=
  inferInstanceAs (Decidable ("equal".toList <+: text.toList ∧ Text.IsWord text))

/-- The names of the helper functions that a line calls or declares. -/
def helpersIn (text : String) : List String :=
  ((ofLine text).filter (fun term => term.after = '(' ∧ IsHelperName term.text)).map Term.text

theorem mem_helpersIn {text helper : String} :
    helper ∈ helpersIn text ↔ ∃ term ∈ ofLine text, term.NamesHelper helper := by
  simp only [helpersIn, List.mem_map, List.mem_filter, decide_eq_true_eq, NamesHelper]
  constructor
  · rintro ⟨term, ⟨membership, after, named⟩, rfl⟩
    exact ⟨term, membership, after, rfl, named⟩
  · rintro ⟨term, membership, after, rfl, named⟩
    exact ⟨term, ⟨membership, after, named⟩, rfl⟩

/-- Whether a term can be seen to use no value and to name no helper function. -/
def IsInert (term : Term) : Prop :=
  (term.before = '"' ∨
    term.before ≠ '*' ∧ ('.' ∉ term.text.toList ∨ term.after = '(' ∧ ¬term.IsMethod)) ∧
      ¬(term.after = '(' ∧ IsHelperName term.text)

instance (term : Term) : Decidable term.IsInert :=
  inferInstanceAs (Decidable ((term.before = '"' ∨
    term.before ≠ '*' ∧ ('.' ∉ term.text.toList ∨ term.after = '(' ∧ ¬term.IsMethod)) ∧
      ¬(term.after = '(' ∧ IsHelperName term.text)))

theorem IsInert.not_uses {term : Term} (inert : term.IsInert) (value : String) :
    ¬term.Uses value := by
  rintro ⟨noText, use⟩
  rcases inert.1 with quoted | ⟨noStar, silent⟩
  · exact noText quoted
  · rcases use with ⟨star, _⟩ | ⟨rest, selects, calls⟩
    · exact noStar star
    · rcases silent with noDot | ⟨after, noMethod⟩
      · apply noDot
        simp [selects]
      · exact noMethod (calls after)

theorem IsInert.not_namesHelper {term : Term} (inert : term.IsInert) (helper : String) :
    ¬term.NamesHelper helper := by
  rintro ⟨after, rfl, named⟩
  exact inert.2 ⟨after, named⟩

/-! ### Scanning a line -/

/-- A text that lies within one term. -/
def IsWhole (text : String) : Prop :=
  ∀ letter ∈ text.toList, isLetter letter = true

instance (text : String) : Decidable (IsWhole text) :=
  List.decidableBAll (fun letter => isLetter letter = true) text.toList

theorem IsWhole.not_mem {text : String} (whole : IsWhole text) {letter : Char}
    (separates : isLetter letter = false) : letter ∉ text.toList := by
  intro membership
  have inside := whole letter membership
  rw [separates] at inside
  exact Bool.noConfusion inside

theorem IsWhole.append {left right : String} (leftWhole : IsWhole left)
    (rightWhole : IsWhole right) : IsWhole (left ++ right) := by
  intro letter membership
  rw [String.toList_append, List.mem_append] at membership
  rcases membership with inLeft | inRight
  · exact leftWhole letter inLeft
  · exact rightWhole letter inRight

theorem isWhole_of_isDotted {text : String} (dotted : Text.IsDotted text) : IsWhole text := by
  intro letter membership
  rcases dotted letter membership with wordLetter | rfl
  · simp [isLetter, wordLetter]
  · rfl

theorem isWhole_of_isWord {text : String} (word : Text.IsWord text) : IsWhole text :=
  isWhole_of_isDotted word.isDotted

theorem scan_append {before : Char} {begun : List Char} {text : String} (whole : IsWhole text)
    (rest : List Char) :
    scan before begun (text.toList ++ rest) = scan before (begun ++ text.toList) rest := by
  have general : ∀ letters, (∀ letter ∈ letters, isLetter letter = true) → ∀ begun,
      scan before begun (letters ++ rest) = scan before (begun ++ letters) rest := by
    intro letters inside
    induction letters with
    | nil => simp
    | cons letter others ih =>
        intro begun
        have first := inside letter List.mem_cons_self
        have later := ih (fun other membership =>
          inside other (List.mem_cons_of_mem _ membership)) (begun ++ [letter])
        simpa [scan, first] using later
  exact general text.toList whole begun

theorem scan_whole {before : Char} {begun : List Char} {text : String} (whole : IsWhole text) :
    scan before begun text.toList = close before (begun ++ text.toList) '\n' := by
  have scanned := @scan_append before begun text whole []
  rwa [List.append_nil] at scanned

theorem mem_close {before after : Char} {letters : List Char} {term : Term} :
    term ∈ close before letters after ↔
      letters ≠ [] ∧ term = ⟨before, String.ofList letters, after⟩ := by
  unfold close
  split <;> simp_all

/-- A term holds letters of its line only. -/
theorem text_subset_of_mem_scan {before : Char} {begun letters : List Char} {term : Term}
    (membership : term ∈ scan before begun letters) : term.text.toList ⊆ begun ++ letters := by
  induction letters generalizing before begun with
  | nil =>
      rcases mem_close.mp membership with ⟨_, rfl⟩
      simp
  | cons letter rest ih =>
      rw [scan] at membership
      split at membership
      · have within := ih membership
        rwa [List.append_assoc, List.singleton_append] at within
      · rcases List.mem_append.mp membership with inClose | later
        · rcases mem_close.mp inClose with ⟨_, rfl⟩
          simp
        · refine List.Subset.trans (ih later) ?_
          exact List.subset_append_of_subset_right _ (List.subset_cons_self _ _)

theorem text_subset_of_mem_ofLine {text : String} {term : Term} (membership : term ∈ ofLine text) :
    term.text.toList ⊆ text.toList :=
  text_subset_of_mem_scan membership

theorem isInert_of_mem_close {before after : Char} {letters : List Char} {term : Term}
    (noStar : before ≠ '*') (noDot : '.' ∉ letters) (noCall : after ≠ '(')
    (membership : term ∈ close before letters after) : term.IsInert := by
  rcases mem_close.mp membership with ⟨_, rfl⟩
  exact ⟨Or.inr ⟨noStar, Or.inl (by simpa using noDot)⟩, fun named => noCall named.1⟩

/-- Letters without dots, stars and parentheses make inert terms. -/
theorem isInert_of_mem_scan {before : Char} {begun letters : List Char} {term : Term}
    (quiet : ∀ letter ∈ letters, letter ≠ '.' ∧ letter ≠ '*' ∧ letter ≠ '(')
    (noStar : before ≠ '*') (noDot : '.' ∉ begun) (membership : term ∈ scan before begun letters) :
    term.IsInert := by
  induction letters generalizing before begun with
  | nil => exact isInert_of_mem_close noStar noDot (by decide) membership
  | cons letter rest ih =>
      have first := quiet letter List.mem_cons_self
      have others : ∀ other ∈ rest, other ≠ '.' ∧ other ≠ '*' ∧ other ≠ '(' :=
        fun other inRest => quiet other (List.mem_cons_of_mem _ inRest)
      rw [scan] at membership
      split at membership
      · refine ih others noStar ?_ membership
        simpa [noDot] using first.1.symm
      · rcases List.mem_append.mp membership with inClose | later
        · exact isInert_of_mem_close noStar noDot first.2.2 inClose
        · exact ih others first.2.1 List.not_mem_nil later

end Term

end Reconcile
