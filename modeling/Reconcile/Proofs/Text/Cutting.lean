import Reconcile.Proofs.Text.Words

/-!
# Texts cut at dots

The pieces of a text are told from the text alone: they are put together with dots between them, and
none of them holds a dot. There is exactly one such list of pieces for every text, and cutting finds
it (`isCutAtDots_iff`).
-/

namespace Reconcile.Text

/-- Whether a text consists of pieces without dots, with dots between them. -/
structure IsCutAtDots (text : String) (pieces : List String) : Prop where
  nonempty : pieces ≠ []
  clean : ∀ piece ∈ pieces, '.' ∉ piece.toList
  joined : ".".intercalate pieces = text

variable {text : String} {pieces : List String}

theorem isCutAtDots_split (text : String) : IsCutAtDots text (split '.' text) where
  nonempty := split_ne_nil '.' text
  clean _ isPiece := not_mem_of_mem_split isPiece
  joined := intercalate_split '.' text

/-- Cutting finds the pieces, whatever they are. -/
theorem IsCutAtDots.split_eq (isCut : IsCutAtDots text pieces) : split '.' text = pieces := by
  rw [← isCut.joined]
  exact split_intercalate isCut.nonempty isCut.clean

theorem isCutAtDots_iff : IsCutAtDots text pieces ↔ split '.' text = pieces := by
  constructor
  · exact IsCutAtDots.split_eq
  · rintro rfl
    exact isCutAtDots_split text

end Reconcile.Text
