/-!
# Pieces of a text

Cutting a text at a separator and taking known ends off it. Cutting loses nothing:
`intercalate_pieces` puts the text together again.
-/

namespace Reconcile.Text

/-- The stretches between the separators, empty ones included. There is always at least one. -/
def pieces (separator : Char) : List Char → List (List Char)
  | [] => [[]]
  | letter :: rest =>
    if letter = separator then [] :: pieces separator rest
    else
      match pieces separator rest with
      | [] => [[letter]]
      | piece :: others => (letter :: piece) :: others

/-- The text cut at every separator. -/
def split (separator : Char) (text : String) : List String :=
  (pieces separator text.toList).map String.ofList

/-- The text without the given end, if it has that end. -/
def dropEnd? (ending text : String) : Option String :=
  if ending.toList.isSuffixOf text.toList then
    some (String.ofList (text.toList.take (text.length - ending.length)))
  else
    none

/-- The text without the given start, if it has that start. -/
def dropStart? (start text : String) : Option String :=
  if start.toList.isPrefixOf text.toList then
    some (String.ofList (text.toList.drop start.length))
  else
    none

theorem pieces_ne_nil (separator : Char) (letters : List Char) :
    pieces separator letters ≠ [] := by
  cases letters with
  | nil => simp [pieces]
  | cons letter rest =>
    unfold pieces
    split
    · simp
    · split <;> simp

/-- Putting the separator back between the pieces gives the text again. -/
theorem intercalate_pieces (separator : Char) (letters : List Char) :
    [separator].intercalate (pieces separator letters) = letters := by
  induction letters with
  | nil => simp [pieces, List.intercalate]
  | cons letter rest ih =>
    unfold pieces
    split
    · next same =>
      subst same
      cases found : pieces letter rest with
      | nil => exact absurd found (pieces_ne_nil _ _)
      | cons piece others => simpa [List.intercalate, List.intersperse, found] using ih
    · cases found : pieces separator rest with
      | nil => exact absurd found (pieces_ne_nil _ _)
      | cons piece others =>
        cases others <;> simp_all [List.intercalate, List.intersperse]

end Reconcile.Text
