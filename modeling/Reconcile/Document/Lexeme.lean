/-!
# Lexemes of documents

The smallest parts of a document: brackets, commas, colons, quoted texts and bare words, with
the characters they are made of.
-/

namespace Reconcile.Document

/-- A smallest part of a document. -/
inductive Lexeme where
  | beginList
  | endList
  | beginMapping
  | endMapping
  | comma
  /-- A colon that makes a key of the value in front of it. -/
  | colon
  /-- A colon without a value in front of it that could be a key. -/
  | looseColon
  /-- A text between quotes, its escapes resolved. -/
  | text (value : String)
  /-- A number or another bare word. -/
  | word (letters : String)
  /-- Something that is none of the others. -/
  | fault
  deriving DecidableEq, Repr

namespace Lexeme

/-- The value of a hexadecimal digit. -/
def hexadecimalDigit? (letter : Char) : Option Nat :=
  if letter.isDigit then some (letter.toNat - '0'.toNat)
  else if 'a' ≤ letter ∧ letter ≤ 'f' then some (letter.toNat - 'a'.toNat + 10)
  else if 'A' ≤ letter ∧ letter ≤ 'F' then some (letter.toNat - 'A'.toNat + 10)
  else none

/-- The character that a letter behind a backslash stands for. -/
def escaped? : Char → Option Char
  | '"' => some '"'
  | '\\' => some '\\'
  | '/' => some '/'
  | ' ' => some ' '
  | '\t' => some '\t'
  | '0' => some '\x00'
  | 'a' => some '\x07'
  | 'b' => some '\x08'
  | 't' => some '\t'
  | 'n' => some '\n'
  | 'v' => some '\x0b'
  | 'f' => some '\x0c'
  | 'r' => some '\r'
  | 'e' => some '\x1b'
  | 'N' => some '\u0085'
  | '_' => some '\u00a0'
  | 'L' => some '\u2028'
  | 'P' => some '\u2029'
  | _ => none

/-- How many hexadecimal digits follow a letter that begins an escape by code point. -/
def escapeDigits? : Char → Option Nat
  | 'x' => some 2
  | 'u' => some 4
  | 'U' => some 8
  | _ => none

/-- Whether a character ends a line. -/
def isLineEnd (letter : Char) : Bool :=
  letter = '\n' || letter = '\u2028' || letter = '\u2029'

/-- Whether a character separates lexemes without being one. -/
def isBlank (letter : Char) : Bool :=
  letter = ' ' || letter = '\t' || isLineEnd letter

/-- Whether a character has a meaning of its own where a word could begin. -/
def isIndicator (letter : Char) : Bool :=
  "-?:,[]\x7b\x7d#&*!|>'\"%@\x60".toList.contains letter

/-- Whether a character separates the parts of lists and mappings. -/
def isSeparator (letter : Char) : Bool :=
  ",[]\x7b\x7d".toList.contains letter

/-- Whether letters start with three hyphens or three points that stand alone. -/
def isDivider : List Char → Bool
  | first :: second :: third :: rest =>
    (first = '-' || first = '.') && second = first && third = first && rest.head?.all isBlank
  | _ => false

/-- Whether a document may hold a character as it is. Most controls must be escaped. -/
def isAllowed (letter : Char) : Bool :=
  if letter.toNat < 0x20 then letter = '\t' || letter = '\n' || letter = '\r'
  else if letter.toNat < 0xa0 then letter.toNat < 0x7f || letter.toNat = 0x85
  else !(letter.toNat = 0xfffe || letter.toNat = 0xffff)

/-- The mark that tells the order of bytes. -/
def byteOrderMark : Char := '\ufeff'

/-- Puts a letter in front of others. A return in front of a line feed adds nothing to it. -/
def joinReturn (letter : Char) (rest : List Char) : List Char :=
  if letter = '\r' && rest.head? = some '\n' then rest else letter :: rest

/-- The ends of lines that are no characters of a text are all written as a line feed. -/
def feedLine (letter : Char) : Char :=
  if letter = '\r' || letter = '\u0085' then '\n' else letter

/-- The letters of a text without the mark in front of them, its line ends written alike. -/
def lettersOf (text : String) : List Char :=
  let letters := text.toList
  let letters := if letters.head? = some byteOrderMark then letters.tail else letters
  (letters.foldr joinReturn []).map feedLine

end Lexeme

end Reconcile.Document
