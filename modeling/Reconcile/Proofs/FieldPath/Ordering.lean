import Reconcile.FieldPath
import Reconcile.Proofs.Text.ByteOrder
import Reconcile.Proofs.Text.Words

/-!
# Order of paths

Paths are ordered segment by segment, their texts letter by letter, and the dots take part in that.
As a dot comes before all letters of names, a segment that is the beginning of another one comes
first in both orders, and the two are the same for paths of names (`FieldPath.compare_text`).
-/

namespace Reconcile.FieldPath

/-- Whether all segments of a path are names: not empty, and of letters behind the dot only. -/
def IsNamed (path : FieldPath) : Prop :=
  ∀ segment ∈ path.segments, segment ≠ "" ∧ ∀ letter ∈ segment.toList, '.' < letter

instance (path : FieldPath) : Decidable path.IsNamed :=
  decidable_of_iff
    (path.segments.all (fun segment => segment ≠ "" ∧ segment.toList.all ('.' < ·) = true) = true)
    (by simp [IsNamed])

variable {left right path : FieldPath} {first second : String}

theorem dot_lt_of_isWordLetter {letter : Char} (isWord : Text.isWordLetter letter = true) :
    '.' < letter := by
  by_cases isLine : letter = '_'
  · rw [isLine]
    decide
  · unfold Text.isWordLetter Char.isAlphanum Char.isAlpha Char.isUpper Char.isLower Char.isDigit
      at isWord
    rw [Char.lt_def]
    grind [Char.toNat, UInt32.le_iff_toNat_le]

/-- Identifiers are names. -/
theorem isNamed_of_isWord
    (words : ∀ segment ∈ path.segments, segment ≠ "" ∧ Text.IsWord segment) : path.IsNamed := by
  intro segment isSegment
  rcases words segment isSegment with ⟨nonempty, isWord⟩
  exact ⟨nonempty, fun letter isLetter => dot_lt_of_isWordLetter (isWord letter isLetter)⟩

/-- A segment and the dot behind it. -/
def closed (segment : String) : List Char :=
  segment.toList ++ ['.']

/-- With a dot at the end, the text of a path consists of its segments with dots behind them. -/
theorem text_append_dot (nonempty : path.segments ≠ []) :
    path.text.toList ++ ['.'] = path.segments.flatMap closed := by
  rcases path with ⟨segments⟩
  rw [text, String.toList_intercalate]
  induction segments with
  | nil => exact absurd rfl nonempty
  | cons segment rest ih =>
      cases rest with
      | nil => simp [closed]
      | cons next others =>
          have behind := ih (List.cons_ne_nil _ _)
          rw [List.map_cons] at behind
          rw [List.map_cons, List.map_cons, List.intercalate_cons_cons, List.flatMap_cons, ← behind,
            closed]
          simp

/-- The dot behind a segment comes before whatever goes on another one that starts with it. -/
theorem codesPrecede_closed (firstNamed : ∀ letter ∈ first.toList, '.' < letter)
    (secondNamed : ∀ letter ∈ second.toList, '.' < letter) (less : compare first second = .lt) :
    Text.CodesPrecede compare (closed first) (closed second) := by
  rw [Text.compare_eq_compareLex] at less
  unfold closed
  generalize first.toList = letters at firstNamed less ⊢
  generalize second.toList = others at secondNamed less ⊢
  intro behindFirst behindSecond
  induction letters generalizing others with
  | nil =>
      cases others with
      | nil => cases less
      | cons letter rest =>
          have isMore : compare '.' letter = .lt :=
            Std.LawfulLTCmp.eq_lt_iff_lt.mpr (secondNamed letter List.mem_cons_self)
          simp only [List.nil_append, List.cons_append, List.compareLex_cons_cons, isMore,
            Ordering.lt_then]
  | cons letter rest ih =>
      cases others with
      | nil => cases less
      | cons other later =>
          rw [List.compareLex_cons_cons, Ordering.then_eq_lt] at less
          simp only [List.cons_append, List.compareLex_cons_cons, Ordering.then_eq_lt]
          refine less.imp_right (And.imp_right (ih ?_ later ?_))
          · exact fun letter listed => firstNamed letter (List.mem_cons_of_mem _ listed)
          · exact fun letter listed => secondNamed letter (List.mem_cons_of_mem _ listed)

theorem IsNamed.text_eq_nil (named : path.IsNamed) :
    path.text.toList = [] ↔ path.segments = [] := by
  constructor
  · intro isEmpty
    by_contra nonempty
    have closing := text_append_dot nonempty
    rcases List.exists_cons_of_ne_nil nonempty with ⟨segment, rest, found⟩
    rw [isEmpty, found, List.flatMap_cons, closed] at closing
    have lengths := congrArg List.length closing
    have isName := (named segment (found ▸ List.mem_cons_self)).1
    have positive : 0 < segment.toList.length := by
      rw [List.length_pos_iff]
      exact fun isNil => isName (String.toList_eq_nil_iff.mp isNil)
    simp only [List.length_append, List.length_cons, List.length_nil] at lengths
    omega
  · intro isEmpty
    rw [text, isEmpty]
    rfl

/-- No letter of the text of a path of names comes before the dot. -/
theorem IsNamed.not_lt_dot (named : path.IsNamed) (nonempty : path.segments ≠ []) :
    ∀ letter ∈ path.text.toList, compare letter '.' ≠ .lt := by
  intro letter isLetter isLess
  have isCode : letter ∈ path.segments.flatMap closed := by
    rw [← text_append_dot nonempty]
    exact List.mem_append_left _ isLetter
  rcases List.mem_flatMap.mp isCode with ⟨segment, isSegment, inSegment⟩
  rw [Std.LawfulLTCmp.eq_lt_iff_lt] at isLess
  rcases List.mem_append.mp inSegment with isName | isDot
  · exact absurd isLess (Char.lt_asymm ((named segment isSegment).2 letter isName))
  · rw [List.mem_singleton.mp isDot] at isLess
    exact absurd isLess (by decide)

/-- Segments are compared as their bytes are, from left to right. -/
theorem compare_eq_compareBytes (left right : FieldPath) :
    compare left right = left.segments.compareLex Text.compareBytes right.segments := by
  have same : Text.compareBytes = compare := funext fun _ => funext (Text.compareBytes_eq _)
  rw [same]
  rfl

/-- A path comes before all longer ones that start with it. -/
theorem compare_of_prefix (isFront : left.segments <+: right.segments) (different : left ≠ right) :
    compare left right = .lt := by
  rcases isFront with ⟨extra, whole⟩
  have compared : compare left right = left.segments.compareLex compare right.segments := rfl
  have added : extra ≠ [] := by
    rintro rfl
    exact different (congrArg mk ((List.append_nil _).symm.trans whole))
  have behind : (left.segments ++ []).compareLex compare (left.segments ++ extra) = .lt :=
    (Text.compareLex_append_left left.segments [] extra).trans (Text.nil_compareLex added)
  rw [List.append_nil] at behind
  rw [compared, ← whole]
  exact behind

/-- Paths of names are ordered like their texts. -/
theorem compare_text (leftNamed : left.IsNamed) (rightNamed : right.IsNamed) :
    compare left right = compare left.text right.text := by
  have segments : compare left right = left.segments.compareLex compare right.segments := rfl
  rw [segments, Text.compare_eq_compareLex]
  by_cases leftEmpty : left.segments = []
  · rw [leftEmpty, leftNamed.text_eq_nil.mpr leftEmpty]
    by_cases rightEmpty : right.segments = []
    · rw [rightEmpty, rightNamed.text_eq_nil.mpr rightEmpty]
      rfl
    · rw [Text.nil_compareLex rightEmpty,
        Text.nil_compareLex (mt rightNamed.text_eq_nil.mp rightEmpty)]
  by_cases rightEmpty : right.segments = []
  · rw [rightEmpty, rightNamed.text_eq_nil.mpr rightEmpty, Text.compareLex_nil leftEmpty,
      Text.compareLex_nil (mt leftNamed.text_eq_nil.mp leftEmpty)]
  have codes : (left.segments.flatMap closed).compareLex compare (right.segments.flatMap closed) =
      left.segments.compareLex compare right.segments := by
    refine Text.compareLex_flatMap (fun segment => ∀ letter ∈ segment.toList, '.' < letter) ?_ ?_
      (fun segment isSegment => (leftNamed segment isSegment).2)
      (fun segment isSegment => (rightNamed segment isSegment).2)
    · exact fun segment => List.append_ne_nil_of_right_ne_nil _ (List.cons_ne_nil _ _)
    · exact fun first second firstNamed secondNamed => codesPrecede_closed firstNamed secondNamed
  rw [← codes, ← text_append_dot leftEmpty, ← text_append_dot rightEmpty,
    Text.compareLex_concat (leftNamed.not_lt_dot leftEmpty) (rightNamed.not_lt_dot rightEmpty)]

/-- A hyphen comes before the dot, so that the texts of other paths may be ordered differently. -/
example : compare (⟨["Vault", "Key"]⟩ : FieldPath) ⟨["Vault-Key"]⟩ = .lt ∧
    Text.compareBytes "Vault.Key" "Vault-Key" = .gt := by decide

end Reconcile.FieldPath
