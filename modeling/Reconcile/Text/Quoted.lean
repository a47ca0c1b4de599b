import Reconcile.Text.Printable

/-!
# Quoted texts

Ways of writing a text between double quotes: for the reader of a message, who shall see
every character, and for a string literal in emitted code. Messages also escape the
apostrophes of file locations.
-/

namespace Reconcile.Text

/-- A character of a quoted text in a message. -/
def messageEscape (letter : Char) : List Char :=
  match letter with
  | '"' => ['\\', '"']
  | '\\' => ['\\', '\\']
  | '\n' => ['\\', 'n']
  | '\t' => ['\\', 't']
  | '\r' => ['\\', 'r']
  | '\x00' => ['\\', '0']
  | letter =>
    if isPrintable letter then [letter]
    else ['\\', 'u', '\x7b'] ++ Nat.toDigits 16 letter.toNat ++ ['\x7d']

/-- The text as messages quote it. -/
def quoted (text : String) : String :=
  String.ofList ('"' :: (text.toList.flatMap messageEscape ++ ['"']))

/-- A character of a quoted file location. -/
def locationEscape (letter : Char) : List Char :=
  if letter = '\'' then ['\\', '\''] else messageEscape letter

/-- The location of a file as messages quote it. -/
def quotedLocation (location : String) : String :=
  String.ofList ('"' :: (location.toList.flatMap locationEscape ++ ['"']))

/-- A character of a string literal. -/
def literalEscape (letter : Char) : List Char :=
  match letter with
  | '"' => ['\\', '"']
  | '\\' => ['\\', '\\']
  | '\n' => ['\\', 'n']
  | '\t' => ['\\', 't']
  | letter => [letter]

/-- The text as a string literal of emitted code. -/
def literal (text : String) : String :=
  String.ofList ('"' :: (text.toList.flatMap literalEscape ++ ['"']))

end Reconcile.Text
