import Mathlib.Data.List.Induction
import Reconcile.FieldPath
import Reconcile.Proofs.Text.Cutting

/-!
# Reading paths

A text is read as a path exactly if no piece between its dots is empty, and the segments of the path
are these pieces; otherwise the first empty piece is reported. Paths are also made segment by
segment, and such segments may be empty or hold dots. A path is found again in its text exactly if
it has segments, none of them empty and none with a dot (`FieldPath.parse_exact`).
-/

namespace Reconcile.FieldPath

variable {input : String} {path : FieldPath} {pieces : List String} {index : Nat}

/-! ### Texts that are read -/

theorem findIdx?_isEmpty_eq_none : pieces.findIdx? String.isEmpty = none ↔ "" ∉ pieces := by
  rw [List.findIdx?_eq_none_iff]
  constructor
  · intro noneEmpty isPiece
    exact absurd (noneEmpty "" isPiece) (by decide)
  · intro absent piece isPiece
    rw [String.isEmpty_eq_false_iff]
    rintro rfl
    exact absent isPiece

/-- The first empty piece is found behind as many pieces as its index says. -/
theorem findIdx?_isEmpty_eq_some : pieces.findIdx? String.isEmpty = some index ↔
    ∃ front back, pieces = front ++ "" :: back ∧ "" ∉ front ∧ front.length = index := by
  constructor
  · intro found
    rcases List.findIdx?_eq_some_iff_getElem.mp found with ⟨inside, isEmpty, earlier⟩
    refine ⟨pieces.take index, pieces.drop (index + 1), ?_, ?_,
      List.length_take_of_le (Nat.le_of_lt inside)⟩
    · rw [← String.isEmpty_iff.mp isEmpty, ← List.drop_eq_getElem_cons inside,
        List.take_append_drop]
    · intro isEarlier
      rcases List.mem_take_iff_getElem.mp isEarlier with ⟨place, before, isPiece⟩
      exact earlier place (by omega) (String.isEmpty_iff.mpr isPiece)
  · rintro ⟨front, back, rfl, absent, rfl⟩
    have noneBefore := findIdx?_isEmpty_eq_none.mpr absent
    simp [List.findIdx?_append, noneBefore, List.findIdx?_cons]

theorem parse_of_ne_empty (nonempty : input ≠ "") :
    parse input = match (Text.split '.' input).findIdx? String.isEmpty with
      | some index => .error (.emptySegment index)
      | none => .ok ⟨Text.split '.' input⟩ := by
  have notEmpty : ¬input.isEmpty = true := by simpa using nonempty
  exact if_neg notEmpty

/-- Without empty pieces a text is not empty. -/
theorem ne_empty_of_isCut (isCut : Text.IsCutAtDots input pieces) (full : "" ∉ pieces) :
    input ≠ "" := by
  rintro rfl
  rw [← isCut.split_eq] at full
  exact full (by decide)

/-- Paths are read from texts without empty pieces, and consist of these pieces. -/
theorem parse_eq_ok : parse input = .ok path ↔
    Text.IsCutAtDots input path.segments ∧ "" ∉ path.segments := by
  constructor
  · intro parsed
    have segments := segments_of_parse parsed
    refine ⟨Text.isCutAtDots_iff.mpr segments.symm, ?_⟩
    rw [segments, ← findIdx?_isEmpty_eq_none]
    by_cases isEmpty : input = ""
    · subst isEmpty
      cases parsed
    · rw [parse_of_ne_empty isEmpty] at parsed
      split at parsed
      · cases parsed
      · assumption
  · rintro ⟨isCut, full⟩
    rw [parse_of_ne_empty (ne_empty_of_isCut isCut full), isCut.split_eq,
      findIdx?_isEmpty_eq_none.mpr full]

theorem text_of_parse (parsed : parse input = .ok path) : path.text = input :=
  (parse_eq_ok.mp parsed).1.joined

theorem exists_parse_eq_ok : (∃ path, parse input = .ok path) ↔
    input ≠ "" ∧ ∀ pieces, Text.IsCutAtDots input pieces → "" ∉ pieces := by
  constructor
  · rintro ⟨path, parsed⟩
    rcases parse_eq_ok.mp parsed with ⟨isCut, full⟩
    refine ⟨ne_empty_of_isCut isCut full, ?_⟩
    intro pieces isCutToo
    rwa [← isCutToo.split_eq, isCut.split_eq]
  · rintro ⟨_, full⟩
    have isCut := Text.isCutAtDots_split input
    exact ⟨⟨Text.split '.' input⟩, parse_eq_ok.mpr ⟨isCut, full _ isCut⟩⟩

theorem parse_eq_emptyInput : parse input = .error .emptyInput ↔ input = "" := by
  constructor
  · intro parsed
    by_contra nonempty
    rw [parse_of_ne_empty nonempty] at parsed
    split at parsed
    · cases parsed
    · cases parsed
  · rintro rfl
    rfl

/-- The index of the error is that of the first empty piece. -/
theorem parse_eq_emptySegment : parse input = .error (.emptySegment index) ↔
    input ≠ "" ∧ ∃ front back, Text.IsCutAtDots input (front ++ "" :: back) ∧ "" ∉ front ∧
      front.length = index := by
  constructor
  · intro parsed
    have nonempty : input ≠ "" := by
      rintro rfl
      cases parsed
    rw [parse_of_ne_empty nonempty] at parsed
    split at parsed
    · rename_i found
      cases parsed
      rcases findIdx?_isEmpty_eq_some.mp found with ⟨front, back, isCut, known⟩
      exact ⟨nonempty, front, back, Text.isCutAtDots_iff.mpr isCut, known⟩
    · cases parsed
  · rintro ⟨nonempty, front, back, isCut, known⟩
    have found := findIdx?_isEmpty_eq_some.mpr ⟨front, back, isCut.split_eq, known⟩
    rw [parse_of_ne_empty nonempty, found]

/-! ### Paths that are made -/

/-- A path is found again in its text if its segments stay apart there. -/
theorem parse_text : parse path.text = .ok path ↔
    path.segments ≠ [] ∧ ∀ segment ∈ path.segments, segment ≠ "" ∧ '.' ∉ segment.toList := by
  rw [parse_eq_ok]
  constructor
  · rintro ⟨isCut, full⟩
    refine ⟨isCut.nonempty, ?_⟩
    intro segment isSegment
    refine ⟨?_, isCut.clean segment isSegment⟩
    rintro rfl
    exact full isSegment
  · rintro ⟨nonempty, named⟩
    exact ⟨⟨nonempty, fun segment isSegment => (named segment isSegment).2, rfl⟩,
      fun isSegment => (named "" isSegment).1 rfl⟩

/-- What makes a path from a path: its segments are replaced, added to at an end, or taken away. -/
inductive Change where
  | collect (segments : List String)
  | pushFront (segment : String)
  | child (segment : String)
  | tail
  | parent
  | upTo (index : Nat)
  deriving DecidableEq, Repr

namespace Change

/-- The path that a change makes. A path stays as it is where it does not reach an index. -/
def apply : Change → FieldPath → FieldPath
  | .collect segments, _ => ⟨segments⟩
  | .pushFront segment, path => path.pushFront segment
  | .child segment, path => path.child segment
  | .tail, path => path.tail
  | .parent, path => path.parent
  | .upTo index, path => (path.upTo? index).getD path

/-- The segments that a change adds. -/
def added : Change → List String
  | .collect segments => segments
  | .pushFront segment | .child segment => [segment]
  | .tail | .parent | .upTo _ => []

theorem segments_apply_subset (change : Change) (path : FieldPath) :
    (change.apply path).segments ⊆ change.added ++ path.segments := by
  cases change with
  | collect segments => exact List.subset_append_left _ _
  | pushFront segment => exact List.Subset.refl _
  | child segment => simp [apply, added, List.subset_def, or_comm]
  | tail => exact (List.tail_sublist _).subset
  | parent => exact (List.dropLast_sublist _).subset
  | upTo index =>
      rw [apply, upTo?]
      split
      · exact (List.take_sublist _ _).subset
      · exact List.Subset.refl _

end Change

/-- The path that changes make of the path without segments. -/
def built (changes : List Change) : FieldPath :=
  changes.foldl (fun path change => change.apply path) empty

theorem built_concat (changes : List Change) (change : Change) :
    built (changes ++ [change]) = change.apply (built changes) := by
  simp [built]

/-- All segments of a path were added by some change. -/
theorem exists_added_of_mem_built {changes : List Change} {segment : String}
    (isSegment : segment ∈ (built changes).segments) :
    ∃ change ∈ changes, segment ∈ change.added := by
  induction changes using List.reverseRecOn with
  | nil => exact absurd isSegment List.not_mem_nil
  | append_singleton earlier last ih =>
      rw [built_concat] at isSegment
      rcases List.mem_append.mp (last.segments_apply_subset _ isSegment) with isNew | isOld
      · exact ⟨last, List.mem_append_right _ List.mem_cons_self, isNew⟩
      · rcases ih isOld with ⟨change, listed, isAdded⟩
        exact ⟨change, List.mem_append_left _ listed, isAdded⟩

/-- A path that was made from names is found again in its text, unless all of them were taken away. -/
theorem parse_text_of_named {changes : List Change}
    (named : ∀ change ∈ changes, ∀ segment ∈ change.added, segment ≠ "" ∧ '.' ∉ segment.toList)
    (nonempty : (built changes).segments ≠ []) :
    parse (built changes).text = .ok (built changes) := by
  refine parse_text.mpr ⟨nonempty, ?_⟩
  intro segment isSegment
  rcases exists_added_of_mem_built isSegment with ⟨change, listed, isAdded⟩
  exact named change listed segment isAdded

/--
Reading accepts exactly the texts whose pieces between dots are not empty. The path that is read
consists of these pieces and is written as the text again; the other texts are refused as empty, or
with the number of pieces in front of the first empty one. A path that was made by any changes is
found again in its text exactly if it has segments, none of them empty and none with a dot.
-/
theorem parse_exact :
    (∀ input : String,
      (∀ path, parse input = .ok path ↔
        Text.IsCutAtDots input path.segments ∧ "" ∉ path.segments) ∧
      ((∃ path, parse input = .ok path) ↔
        input ≠ "" ∧ ∀ pieces, Text.IsCutAtDots input pieces → "" ∉ pieces) ∧
      (∀ path, parse input = .ok path → path.text = input) ∧
      (parse input = .error .emptyInput ↔ input = "") ∧
      ∀ index, parse input = .error (.emptySegment index) ↔ input ≠ "" ∧
        ∃ front back, Text.IsCutAtDots input (front ++ "" :: back) ∧ "" ∉ front ∧
          front.length = index) ∧
    ∀ changes, parse (built changes).text = .ok (built changes) ↔
      (built changes).segments ≠ [] ∧
        ∀ segment ∈ (built changes).segments, segment ≠ "" ∧ '.' ∉ segment.toList := by
  refine ⟨fun input => ?_, fun changes => parse_text⟩
  exact ⟨fun path => parse_eq_ok, exists_parse_eq_ok, fun path => text_of_parse,
    parse_eq_emptyInput, fun index => parse_eq_emptySegment⟩

/-- A segment with a dot is read as two, and a path of one empty segment is written as no text. -/
theorem parse_exact_ambiguous :
    built [.child "B.C", .pushFront "A", .child "D", .parent] = ⟨["A", "B.C"]⟩ ∧
      parse (built [.child "B.C", .pushFront "A", .child "D", .parent]).text ≠
        .ok (built [.child "B.C", .pushFront "A", .child "D", .parent]) ∧
      parse "A.B.C" = .ok ⟨["A", "B", "C"]⟩ ∧ parse "A..C." = .error (.emptySegment 1) ∧
      parse (built [.pushFront ""]).text = .error .emptyInput := by
  have dotted := parse_exact.2 [.child "B.C", .pushFront "A", .child "D", .parent]
  have isCut : Text.IsCutAtDots "A.B.C" ["A", "B", "C"] :=
    ⟨by decide, by decide, by decide⟩
  have isCutToo : Text.IsCutAtDots "A..C." (["A"] ++ "" :: ["C", ""]) :=
    ⟨by decide, by decide, by decide⟩
  refine ⟨by decide, ?_, ?_, ?_, ?_⟩
  · rw [Ne, dotted]
    decide
  · exact ((parse_exact.1 "A.B.C").1 _).mpr ⟨isCut, by decide⟩
  · exact ((parse_exact.1 "A..C.").2.2.2.2 1).mpr
      ⟨by decide, ["A"], ["C", ""], isCutToo, by decide, rfl⟩
  · exact (parse_exact.1 _).2.2.2.1.mpr (by decide)

end Reconcile.FieldPath
