import Mathlib
import Reconcile.Names

/-!
# Default spellings

The default spellings of a name differ from it in letter case only, and only at the front: the
exported one in the first letter (`Text.toList_capitalize`), the unexported one in the leading run
of capitals (`Names.IsLeadingRun`), of which the last one stays if it starts a word. So the
spellings of an exported name are those of the name that it was made from
(`Normalizer.default_respells`).
-/

namespace Reconcile

namespace Text

theorem toList_capitalize (text : String) :
    (capitalize text).toList = text.toList.modifyHead Char.toUpper := by
  unfold capitalize
  split
  · rename_i empty
    rw [empty, List.modifyHead_nil]
  · rename_i first rest found
    rw [found, String.toList_ofList, List.modifyHead_cons]

theorem capitalize_capitalize (text : String) : capitalize (capitalize text) = capitalize text := by
  rw [← String.toList_inj, toList_capitalize, toList_capitalize]
  cases text.toList with
  | nil => rfl
  | cons first rest => simp [Char.toUpper_toUpper_eq_toUpper]

theorem lower_capitalize (text : String) : lower (capitalize text) = lower text := by
  rw [lower, lower, toList_capitalize]
  cases text.toList with
  | nil => rfl
  | cons first rest => simp [Char.toLower_toUpper_eq_toLower]

theorem utf8Size_of_isLower {letter : Char} (small : letter.isLower = true) :
    letter.utf8Size = 1 := by
  unfold Char.isLower at small
  unfold Char.utf8Size
  grind

theorem utf8Size_of_isUpper {letter : Char} (capital : letter.isUpper = true) :
    letter.utf8Size = 1 := by
  unfold Char.isUpper at capital
  unfold Char.utf8Size
  grind

theorem toUpper_eq_newline {letter : Char} : letter.toUpper = '\n' ↔ letter = '\n' := by
  by_cases small : letter.isLower = true
  · have raised : letter.toUpper.isUpper = true := by
      rw [Char.isUpper_toUpper_eq_isAlpha, Char.isAlpha, small, Bool.or_true]
    constructor
    · intro isNewline
      rw [isNewline] at raised
      exact absurd raised (by decide)
    · rintro rfl
      exact absurd small (by decide)
  · rw [Char.toUpper_eq_of_not_isLower small]

theorem newline_mem_capitalize {text : String} :
    '\n' ∈ (capitalize text).toList ↔ '\n' ∈ text.toList := by
  rw [toList_capitalize]
  cases text.toList with
  | nil => rfl
  | cons first rest =>
      rw [List.modifyHead_cons, List.mem_cons, List.mem_cons, eq_comm, toUpper_eq_newline, eq_comm]

/-- A text that starts with a letter of several bytes stays, as small letters take one byte. -/
theorem capitalize_of_utf8Size {text : String} {first : Char} (isFirst : first ∈ text.toList.head?)
    (wide : 1 < first.utf8Size) : capitalize text = text := by
  have notSmall : ¬first.isLower = true := by
    intro small
    rw [utf8Size_of_isLower small] at wide
    exact absurd wide (Nat.lt_irrefl _)
  rcases List.head?_eq_some_iff.mp isFirst with ⟨rest, letters⟩
  rw [← String.toList_inj, toList_capitalize, letters, List.modifyHead_cons,
    Char.toUpper_eq_of_not_isLower notSmall]

end Text

namespace Names

/-- Whether letters are a run of capitals with something behind it that does not go on with one. -/
structure IsLeadingRun (letters run rest : List Char) : Prop where
  split : letters = run ++ rest
  capitals : ∀ letter ∈ run, letter.isUpper = true
  ended : ∀ letter ∈ rest.head?, letter.isUpper = false

variable {name : String}

theorem isLeadingRun_takeWhile (letters : List Char) :
    IsLeadingRun letters (letters.takeWhile Char.isUpper) (letters.dropWhile Char.isUpper) where
  split := List.takeWhile_append_dropWhile.symm
  capitals _ := List.mem_takeWhile_imp
  ended letter isFirst := by
    have stopped := List.head?_dropWhile_not Char.isUpper letters
    rw [isFirst] at stopped
    exact stopped

/--
Whether the capitals in front of a rest that are lowered are all but the last one if there are
several and a small letter is behind them, and all of them otherwise.
-/
def KeepsWordStart (lowered kept rest : List Char) : Prop :=
  kept.length =
    if 1 < (lowered ++ kept).length ∧ rest.head?.any Char.isLower = true then 1 else 0

theorem KeepsWordStart.lowered_ne_nil {lowered kept rest : List Char}
    (keeps : KeepsWordStart lowered kept rest) (nonempty : lowered ++ kept ≠ []) : lowered ≠ [] := by
  rintro rfl
  unfold KeepsWordStart at keeps
  rw [List.nil_append] at keeps nonempty
  have positive := List.length_pos_iff.mpr nonempty
  split at keeps
  · rename_i several
    omega
  · omega

/-- The capitals of the leading run are lowered, but for one that starts a word. -/
theorem exists_lowered (single : '\n' ∉ name.toList) :
    ∃ lowered kept rest, IsLeadingRun name.toList (lowered ++ kept) rest ∧
      KeepsWordStart lowered kept rest ∧
        (lowerLeadingRun name).toList = lowered.map Char.toLower ++ kept ++ rest := by
  have isRun := isLeadingRun_takeWhile name.toList
  have unlined : ¬name.toList.contains '\n' = true := by simpa using single
  rw [lowerLeadingRun, if_neg unlined]
  generalize name.toList.takeWhile Char.isUpper = run at isRun ⊢
  generalize name.toList.dropWhile Char.isUpper = rest at isRun ⊢
  by_cases word : 1 < run.length ∧ rest.head?.any Char.isLower = true
  · have split : run.dropLast ++ run.drop (run.length - 1) = run := by
      rw [List.dropLast_eq_take, List.take_append_drop]
    refine ⟨run.dropLast, run.drop (run.length - 1), rest, split.symm ▸ isRun, ?_, ?_⟩
    · rw [KeepsWordStart, split, if_pos word, List.length_drop]
      omega
    · have starts : (run.length > 1 && rest.head?.any Char.isLower) = true := by simpa using word
      rw [if_pos starts, String.toList_ofList]
  · refine ⟨run, [], rest, (List.append_nil run).symm ▸ isRun, ?_, ?_⟩
    · rw [KeepsWordStart, List.append_nil, if_neg word, List.length_nil]
    · have plain : ¬(run.length > 1 && rest.head?.any Char.isLower) = true := by simpa using word
      rw [if_neg plain, String.toList_ofList, List.append_nil]

/-- Lowering changes letter case only. -/
theorem lower_lowerLeadingRun (name : String) :
    Text.lower (lowerLeadingRun name) = Text.lower name := by
  by_cases lined : '\n' ∈ name.toList
  · have same : lowerLeadingRun name = name := if_pos (by simpa using lined)
    rw [same]
  · rcases exists_lowered lined with ⟨lowered, kept, rest, isRun, _, letters⟩
    rw [Text.lower, Text.lower, letters, isRun.split]
    simp [Function.comp_def, Char.toLower_toLower_eq_toLower]

/-- A lowered name starts with no capital. -/
theorem isUpper_head_lowerLeadingRun (single : '\n' ∉ name.toList) {letter : Char}
    (isFirst : letter ∈ (lowerLeadingRun name).toList.head?) : letter.isUpper = false := by
  rcases exists_lowered single with ⟨lowered, kept, rest, isRun, keeps, letters⟩
  rw [letters] at isFirst
  by_cases noRun : lowered ++ kept = []
  · rcases List.append_eq_nil_iff.mp noRun with ⟨rfl, rfl⟩
    exact isRun.ended letter isFirst
  · -- What is left at the front was lowered.
    rcases List.exists_cons_of_ne_nil (keeps.lowered_ne_nil noRun) with ⟨first, others, rfl⟩
    cases isFirst
    exact Char.isUpper_toLower_eq_false first

/-- A name that starts with no capital stays as it is. -/
theorem lowerLeadingRun_eq_self (small : ∀ letter ∈ name.toList.head?, letter.isUpper = false) :
    lowerLeadingRun name = name := by
  by_cases lined : '\n' ∈ name.toList
  · exact if_pos (by simpa using lined)
  · rcases exists_lowered lined with ⟨lowered, kept, rest, isRun, _, letters⟩
    have noRun : lowered ++ kept = [] := by
      by_contra nonempty
      rcases List.exists_cons_of_ne_nil nonempty with ⟨first, others, found⟩
      have capital := isRun.capitals first (found ▸ List.mem_cons_self)
      have isFirst : first ∈ name.toList.head? := by
        rw [isRun.split, found]
        rfl
      exact Bool.noConfusion ((small first isFirst).symm.trans capital)
    rcases List.append_eq_nil_iff.mp noRun with ⟨rfl, rfl⟩
    rw [← String.toList_inj, letters, isRun.split]
    rfl

end Names

namespace Normalizer

/--
The default spellings of the exported name are those of the name itself. Both spellings are equal to
the name up to letter case; the exported one differs from it in the first letter at most. Without a
line feed, the unexported one starts with no capital, and it differs from the exported one in the
leading run of capitals only: all of them are lowered, but for the last one of several if a small
letter is behind it. A name that starts with a letter of several bytes has no other spelling.
-/
theorem default_respells (wire : String) :
    let names := default wire
    let again := default names.exported
    (again.exported = names.exported ∧ again.unexported = names.unexported) ∧
      (Text.equalIgnoringCase names.exported wire = true ∧
        Text.equalIgnoringCase names.unexported wire = true) ∧
      (names.exported.length = wire.length ∧ names.exported.toList.tail = wire.toList.tail) ∧
      ('\n' ∉ wire.toList →
        (∀ letter ∈ names.unexported.toList.head?, letter.isUpper = false) ∧
          ∃ lowered kept rest, Names.IsLeadingRun names.exported.toList (lowered ++ kept) rest ∧
            Names.KeepsWordStart lowered kept rest ∧
              names.unexported.toList = lowered.map Char.toLower ++ kept ++ rest) ∧
      ∀ letter ∈ wire.toList.head?, 1 < letter.utf8Size →
        names.exported = wire ∧ names.unexported = wire := by
  intro names again
  have exported : names.exported = Text.capitalize wire := rfl
  have unexported : names.unexported = Names.lowerLeadingRun names.exported := rfl
  have unchanged : again.exported = names.exported := Text.capitalize_capitalize wire
  have spelled : Text.lower names.exported = Text.lower wire := Text.lower_capitalize wire
  have letters : names.exported.toList = wire.toList.modifyHead Char.toUpper :=
    Text.toList_capitalize wire
  refine ⟨⟨unchanged, congrArg Names.lowerLeadingRun unchanged⟩, ⟨?_, ?_⟩, ⟨?_, ?_⟩, ?_, ?_⟩
  · exact Text.equalIgnoringCase_iff.mpr spelled
  · rw [Text.equalIgnoringCase_iff, unexported, Names.lower_lowerLeadingRun, spelled]
  · rw [← String.length_toList, letters, List.length_modifyHead, String.length_toList]
  · rw [letters]
    cases wire.toList <;> rfl
  · intro single
    rw [← Text.newline_mem_capitalize] at single
    exact ⟨fun letter isFirst => Names.isUpper_head_lowerLeadingRun single isFirst,
      Names.exists_lowered single⟩
  · intro first isFirst wide
    have same : names.exported = wire := Text.capitalize_of_utf8Size isFirst wide
    refine ⟨same, ?_⟩
    rw [unexported, same]
    apply Names.lowerLeadingRun_eq_self
    intro letter isLetter
    cases Option.mem_unique isFirst isLetter
    rw [← Bool.not_eq_true]
    intro capital
    rw [Text.utf8Size_of_isUpper capital] at wide
    exact absurd wide (Nat.lt_irrefl _)

/-- The capital of the second word stays, and in front of a letter of two bytes nothing is done. -/
theorem default_respells_vPCConfig :
    (default "vPCConfig").unexported = "vpcConfig" ∧
      (∀ letter ∈ (default "vPCConfig").unexported.toList.head?, letter.isUpper = false) ∧
      (∃ lowered kept rest, Names.IsLeadingRun "VPCConfig".toList (lowered ++ kept) rest ∧
        Names.KeepsWordStart lowered kept rest ∧
          "vpcConfig".toList = lowered.map Char.toLower ++ kept ++ rest) ∧
      (default "ÄPFel").unexported = "ÄPFel" := by
  have single : '\n' ∉ "vPCConfig".toList := by decide
  rcases default_respells "vPCConfig" with ⟨_, _, _, ofSingle, _⟩
  rcases ofSingle single with ⟨small, run⟩
  rcases default_respells "ÄPFel" with ⟨_, _, _, _, ofWide⟩
  have wide : 1 < 'Ä'.utf8Size := by decide
  exact ⟨by decide, small, run, (ofWide 'Ä' rfl wide).2⟩

example : ["APIID", "aB", "S3Key"].map (fun name => (default name).unexported) =
    ["apiid", "ab", "s3Key"] := by decide

/-- In front of a line feed no run is found. -/
example : (default "APIKey\n").unexported = "APIKey\n" := by decide

end Normalizer

end Reconcile
