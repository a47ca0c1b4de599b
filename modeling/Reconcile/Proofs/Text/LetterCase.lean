import Reconcile.Proofs.Text.Words
import Reconcile.Text.LetterCase

/-!
# Letter case of cut texts

Letter case is that of letters only, so that cutting a text at dots and lowering its letters can be
done in either order. Texts are equal up to letter case if their pieces are, one by one
(`equalIgnoringCase_iff_split`).
-/

namespace Reconcile.Text

theorem toLower_eq_dot {letter : Char} : letter.toLower = '.' ↔ letter = '.' := by
  constructor
  · intro isDot
    unfold Char.toLower at isDot
    split at isDot
    · rename_i isCapital
      -- Small letters come behind the dot.
      have sum := congrArg (fun letter : Char => letter.val.toNat) isDot
      have atLeast := UInt32.le_iff_toNat_le.mp isCapital.1
      have atMost := UInt32.le_iff_toNat_le.mp isCapital.2
      simp only [UInt32.toNat_add] at sum
      have small : ('a'.val - 'A'.val).toNat = 32 := rfl
      have first : 'A'.val.toNat = 65 := rfl
      have last : 'Z'.val.toNat = 90 := rfl
      have dot : '.'.val.toNat = 46 := rfl
      omega
    · exact isDot
  · rintro rfl
    rfl

theorem pieces_map_toLower (letters : List Char) :
    pieces '.' (letters.map Char.toLower) = (pieces '.' letters).map (List.map Char.toLower) := by
  induction letters with
  | nil => rfl
  | cons letter rest ih =>
      by_cases isDot : letter = '.'
      · rw [List.map_cons, pieces, if_pos (toLower_eq_dot.mpr isDot), ih, pieces, if_pos isDot]
        rfl
      · rw [List.map_cons, pieces, if_neg (mt toLower_eq_dot.mp isDot), ih, pieces, if_neg isDot]
        cases pieces '.' rest <;> rfl

theorem split_lower (text : String) : split '.' (lower text) = (split '.' text).map lower := by
  rw [split, lower, String.toList_ofList, pieces_map_toLower, split, List.map_map, List.map_map]
  apply List.map_congr_left
  intro piece _
  simp [lower]

/-- Texts are equal up to letter case if their pieces are. -/
theorem equalIgnoringCase_iff_split {left right : String} : equalIgnoringCase left right = true ↔
    (split '.' left).map lower = (split '.' right).map lower := by
  rw [equalIgnoringCase_iff, ← split_lower, ← split_lower]
  constructor
  · exact congrArg (split '.')
  · intro same
    rw [← intercalate_split '.' (lower left), same, intercalate_split]

theorem isLower_toLower {letter : Char} (isCapital : 'A'.val ≤ letter.val ∧ letter.val ≤ 'Z'.val) :
    letter.toLower.isLower = true := by
  have atLeast := UInt32.le_iff_toNat_le.mp isCapital.1
  have atMost := UInt32.le_iff_toNat_le.mp isCapital.2
  have first : 'A'.val.toNat = 65 := rfl
  have last : 'Z'.val.toNat = 90 := rfl
  have firstSmall : 'a'.val.toNat = 97 := rfl
  have lastSmall : 'z'.val.toNat = 122 := rfl
  have distance : ('a'.val - 'A'.val).toNat = 32 := rfl
  unfold Char.toLower Char.isLower
  rw [dif_pos isCapital, Bool.and_eq_true, decide_eq_true_eq, decide_eq_true_eq, ge_iff_le,
    UInt32.le_iff_toNat_le, UInt32.le_iff_toNat_le, UInt32.toNat_add]
  omega

theorem isWordLetter_toLower {letter : Char} (isWord : isWordLetter letter = true) :
    isWordLetter letter.toLower = true := by
  by_cases isCapital : 'A'.val ≤ letter.val ∧ letter.val ≤ 'Z'.val
  · have isLower := isLower_toLower isCapital
    unfold isWordLetter Char.isAlphanum Char.isAlpha
    rw [isLower, Bool.or_true, Bool.true_or, Bool.true_or, Bool.true_or]
  · unfold Char.toLower
    rwa [dif_neg isCapital]

end Reconcile.Text
