/-!
# Letter case

Names are respelled and compared through the case of the twenty-six Latin letters
`A` to `Z` only; every other character stands for itself. The functions here are the
ones all look-ups and respellings share.
-/

namespace Reconcile.Text

/-- The text with its capitals replaced by small letters. -/
def lower (text : String) : String :=
  String.ofList (text.toList.map Char.toLower)

/-- Two texts are equal up to letter case. -/
def equalIgnoringCase (left right : String) : Bool :=
  lower left == lower right

/-- The text with its first character raised to a capital. -/
def capitalize (text : String) : String :=
  match text.toList with
  | [] => text
  | first :: rest => String.ofList (first.toUpper :: rest)

theorem equalIgnoringCase_iff {left right : String} :
    equalIgnoringCase left right = true ↔ lower left = lower right := by
  simp [equalIgnoringCase]

@[simp]
theorem equalIgnoringCase_refl (text : String) : equalIgnoringCase text text = true := by
  simp [equalIgnoringCase]

theorem equalIgnoringCase_comm (left right : String) :
    equalIgnoringCase left right = equalIgnoringCase right left := by
  simp [equalIgnoringCase, Bool.beq_comm]

end Reconcile.Text
