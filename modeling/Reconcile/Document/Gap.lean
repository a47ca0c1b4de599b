import Reconcile.Document.Lexeme

/-!
# Gaps in texts

A text may go on over the end of a line. The blanks around the end of a line are dropped. One
line end stands for a space; of several the first is dropped and the others are kept.
-/

namespace Reconcile.Document

/-- The blanks between two letters of a text. Parts are in reverse. -/
structure Gap where
  /-- The blanks as long as the line goes on. -/
  blanks : List Char := []
  /-- The line ends. -/
  lineEnds : List Char := []

namespace Gap

/-- Adds a blank to a gap. -/
def push (gap : Gap) (letter : Char) : Gap :=
  if Lexeme.isLineEnd letter then ⟨[], letter :: gap.lineEnds⟩
  else if gap.lineEnds.isEmpty then ⟨letter :: gap.blanks, []⟩
  else gap

/-- Whether there is nothing between the letters. -/
def isEmpty (gap : Gap) : Bool :=
  gap.blanks.isEmpty && gap.lineEnds.isEmpty

/-- Whether the gap goes over the end of a line. -/
def endsLine (gap : Gap) : Bool :=
  !gap.lineEnds.isEmpty

/-- What the line ends stand for. Those that are characters of a text as well are all kept. -/
def fold : List Char → List Char
  | ['\n'] => [' ']
  | '\n' :: more => more
  | lineEnds => lineEnds

/-- The letters that the gap stands for, in reverse. -/
def letters (gap : Gap) : List Char :=
  if gap.endsLine then (fold gap.lineEnds.reverse).reverse else gap.blanks

end Gap

end Reconcile.Document
