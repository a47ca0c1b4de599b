import Reconcile.Document.Gap

/-!
# Scanning documents

A text is read character by character by a machine that says where a lexeme ends. A value may
turn out to be a key as long as its line goes on and no more than a certain number of bytes
follow its beginning. Until this is settled the value is held back with all that follows it,
so a fault takes away what is held back when it is met.
-/

namespace Reconcile.Document

/-- A place in a text. -/
structure Mark where
  /-- The number of lines in front of it. -/
  line : Nat := 0
  /-- The number of bytes in front of it on its line. -/
  offset : Nat := 0

/-- The place behind a character. -/
def Mark.after (mark : Mark) (letter : Char) : Mark :=
  if Lexeme.isLineEnd letter then ⟨mark.line + 1, 0⟩
  else ⟨mark.line, mark.offset + letter.utf8Size⟩

/-- How many bytes behind the beginning of a key its colon may stand. -/
def keyReach : Nat := 1024

/-- A value that may turn out to be a key. -/
structure Candidate where
  /-- The lexemes in front of the value, in reverse. -/
  before : List Lexeme
  /-- Where the value begins. -/
  mark : Mark

/-- Whether a colon at a place would make a key of the value. -/
def Candidate.reaches (candidate : Candidate) (mark : Mark) : Bool :=
  candidate.mark.line = mark.line && mark.offset ≤ candidate.mark.offset + keyReach

/-- What the next character belongs to. Letters are kept in reverse. -/
inductive Position where
  /-- Nothing yet. -/
  | between
  /-- A comment, which goes on to the end of the line. -/
  | comment
  /-- A bare word. -/
  | word (letters : List Char) (gap : Gap)
  /-- A text between two of the quote. -/
  | quoted (quote : Char) (letters : List Char) (gap : Gap)
  /-- The second of two single quotes that stand for one. -/
  | doubled (letters : List Char)
  /-- What is behind a backslash. -/
  | escape (letters : List Char)
  /-- An escape by code point, with the number of digits still to come. -/
  | point (letters : List Char) (missing : Nat) (value : Nat)

/-- The machine between two characters. -/
structure Scanner where
  position : Position := .between
  /-- Where the next character is. -/
  mark : Mark := {}
  /-- Where the text or word at hand begins. -/
  begun : Mark := {}
  /-- The lexemes so far, in reverse. -/
  lexemes : List Lexeme := []
  /-- Where the last of them ended. -/
  last : Mark := {}
  /-- The value in the innermost list or mapping that may turn out to be a key. -/
  candidate : Option Candidate := none
  /-- The same for the lists and mappings around it, and for the outside. -/
  around : List (Option Candidate) := []
  /-- Whether a value that begins now may turn out to be a key. -/
  keyAllowed : Bool := true

namespace Scanner

/-- Whether no list and no mapping is open. -/
def isOutside (scanner : Scanner) : Bool :=
  scanner.around.isEmpty

/-- Takes note of a value that begins at a place. -/
def propose (scanner : Scanner) (mark : Mark) : Scanner :=
  if scanner.keyAllowed then { scanner with candidate := some ⟨scanner.lexemes, mark⟩ }
  else scanner

/-- Adds a lexeme that ends at a place. -/
def put (scanner : Scanner) (lexeme : Lexeme) (last : Mark) : Scanner :=
  { scanner with position := .between, lexemes := lexeme :: scanner.lexemes, last }

/-- Adds the text or word at hand. -/
def putScalar (scanner : Scanner) (lexeme : Lexeme) (last : Mark) (keyAllowed : Bool) : Scanner :=
  { (scanner.propose scanner.begun).put lexeme last with keyAllowed }

/-- Adds the beginning of a list or mapping. -/
def putBegin (scanner : Scanner) (lexeme : Lexeme) (last : Mark) : Scanner :=
  let scanner := (scanner.propose scanner.mark).put lexeme last
  { scanner with
    candidate := none, around := scanner.candidate :: scanner.around, keyAllowed := true }

/-- Adds the end of a list or mapping. -/
def putEnd (scanner : Scanner) (lexeme : Lexeme) (last : Mark) : Scanner :=
  { scanner.put lexeme last with
    candidate := scanner.around.head?.join, around := scanner.around.tail, keyAllowed := false }

/-- Adds a comma. -/
def putComma (scanner : Scanner) (last : Mark) : Scanner :=
  { scanner.put .comma last with candidate := none, keyAllowed := true }

/-- Adds a colon. -/
def putColon (scanner : Scanner) (last : Mark) : Scanner :=
  let lexeme := if scanner.candidate.any (·.reaches scanner.mark) then .colon else .looseColon
  { scanner.put lexeme last with candidate := none, keyAllowed := false }

/-- Adds the lexeme that a single mark stands for, unless it is none. -/
def putMark? (scanner : Scanner) (letter : Char) : Option Scanner :=
  let last := scanner.mark.after letter
  match letter with
  | '[' => some (scanner.putBegin .beginList last)
  | ']' => some (scanner.putEnd .endList last)
  | '\x7b' => some (scanner.putBegin .beginMapping last)
  | '\x7d' => some (scanner.putEnd .endMapping last)
  | ',' => some (scanner.putComma last)
  | ':' => some (scanner.putColon last)
  | _ => none

/-- Whether the letters from here on are a divider at the beginning of a line. -/
def isAtDivider (scanner : Scanner) (letters : List Char) : Bool :=
  scanner.mark.offset = 0 && Lexeme.isDivider letters

/-- Whether a word begins here. Some marks begin one if something follows them at once. -/
def startsWord (scanner : Scanner) (letter : Char) (rest : List Char) : Bool :=
  if letter = '-' || (scanner.isOutside && (letter = '?' || letter = ':')) then
    rest.head?.any (!Lexeme.isBlank ·)
  else !Lexeme.isIndicator letter

/-- Whether a word ends in front of a letter that is no blank. -/
def endsWord (scanner : Scanner) (gap : Gap) (letter : Char) (rest : List Char) : Bool :=
  scanner.isAtDivider (letter :: rest) ||
    (letter = '#' && !gap.isEmpty) ||
    (letter = ':' && rest.head?.all Lexeme.isBlank) ||
    (!scanner.isOutside && Lexeme.isSeparator letter)

/-- Reads a character between two lexemes. Outside of lists and mappings no tab indents. -/
def stepBetween (scanner : Scanner) (letter : Char) (rest : List Char) : Option Scanner :=
  let scanner := { scanner with position := .between }
  if Lexeme.isLineEnd letter then
    some { scanner with keyAllowed := scanner.keyAllowed || scanner.isOutside }
  else if letter = ' ' || (scanner.mark.offset = 0 && letter = Lexeme.byteOrderMark) then
    some scanner
  else if letter = '\t' then
    if scanner.isOutside && scanner.keyAllowed then none else some scanner
  else if letter = '#' then some { scanner with position := .comment }
  else if scanner.isAtDivider (letter :: rest) then none
  else if letter = '"' || letter = '\'' then
    some { scanner with position := .quoted letter [] {}, begun := scanner.mark }
  else if scanner.startsWord letter rest then
    some { scanner with position := .word [letter] {}, begun := scanner.mark }
  else scanner.putMark? letter

/-- The lexeme of a finished word. -/
def wordOf (letters : List Char) : Lexeme :=
  .word (String.ofList letters.reverse)

/-- Reads a character behind the first letter of a word. -/
def stepWord (scanner : Scanner) (letters : List Char) (gap : Gap) (letter : Char)
    (rest : List Char) : Option Scanner :=
  if Lexeme.isBlank letter then
    some { scanner with position := .word letters (gap.push letter) }
  else if scanner.endsWord gap letter rest then
    (scanner.putScalar (wordOf letters) scanner.mark gap.endsLine).stepBetween letter rest
  else if !scanner.isOutside && letter = ':' &&
      rest.head?.any (fun next => next = '?' || Lexeme.isSeparator next) then none
  else some { scanner with position := .word (letter :: (gap.letters ++ letters)) {} }

/-- Reads a character of a quoted text. Only double quotes know escapes. -/
def stepQuoted (scanner : Scanner) (quote : Char) (letters : List Char) (gap : Gap)
    (letter : Char) (rest : List Char) : Option Scanner :=
  if Lexeme.isBlank letter then
    some { scanner with position := .quoted quote letters (gap.push letter) }
  else if scanner.isAtDivider (letter :: rest) then none
  else
    let letters := gap.letters ++ letters
    if letter = quote then
      if quote = '\'' && rest.head? = some '\'' then
        some { scanner with position := .doubled letters }
      else
        let lexeme := .text (String.ofList letters.reverse)
        some (scanner.putScalar lexeme (scanner.mark.after letter) false)
    else if letter = '\\' && quote = '"' then some { scanner with position := .escape letters }
    else some { scanner with position := .quoted quote (letter :: letters) {} }

/-- Reads the letter behind a backslash. -/
def stepEscape (scanner : Scanner) (letters : List Char) (letter : Char) : Option Scanner :=
  match Lexeme.escapeDigits? letter with
  | some digits => some { scanner with position := .point letters digits 0 }
  | none => do
    let character ← Lexeme.escaped? letter
    return { scanner with position := .quoted '"' (character :: letters) {} }

/-- Reads a digit of an escape by code point, which must be one of a character. -/
def stepPoint (scanner : Scanner) (letters : List Char) (missing value : Nat) (letter : Char) :
    Option Scanner := do
  let digit ← Lexeme.hexadecimalDigit? letter
  let value := value * 16 + digit
  if 1 < missing then return { scanner with position := .point letters (missing - 1) value }
  else if value.isValidChar then
    return { scanner with position := .quoted '"' (Char.ofNat value :: letters) {} }
  else none

/-- Reads a character, given what follows it. There is no machine behind a fault. -/
def step (scanner : Scanner) (letter : Char) (rest : List Char) : Option Scanner :=
  match scanner.position with
  | .between => scanner.stepBetween letter rest
  | .comment => if Lexeme.isLineEnd letter then scanner.stepBetween letter rest else some scanner
  | .word letters gap => scanner.stepWord letters gap letter rest
  | .quoted quote letters gap => scanner.stepQuoted quote letters gap letter rest
  | .doubled letters => some { scanner with position := .quoted '\'' ('\'' :: letters) {} }
  | .escape letters => scanner.stepEscape letters letter
  | .point letters missing value => scanner.stepPoint letters missing value letter

/-- The lexemes in front of every value that may still turn out to be a key, in reverse. -/
def settled (scanner : Scanner) : List Lexeme :=
  (scanner.candidate :: scanner.around).foldl
    (fun settled candidate =>
      match candidate with
      | some candidate => if candidate.reaches scanner.last then candidate.before else settled
      | none => settled) scanner.lexemes

/-- The lexemes if a fault is next. -/
def faulted (scanner : Scanner) : List Lexeme :=
  (.fault :: scanner.settled).reverse

/-- The lexemes if the text ends. -/
def finish (scanner : Scanner) : List Lexeme :=
  match scanner.position with
  | .between | .comment => scanner.lexemes.reverse
  | .word letters _ => (wordOf letters :: scanner.lexemes).reverse
  | _ => scanner.faulted

/-- The lexemes of the letters from here on, behind those so far. -/
def scan (scanner : Scanner) : List Char → List Lexeme
  | [] => scanner.finish
  | letter :: rest =>
    match scanner.step letter rest with
    | some next => scan { next with mark := scanner.mark.after letter } rest
    | none => scanner.faulted

end Scanner

/-- The lexemes of a text. A text with a character that is not allowed has none at all. -/
def Lexeme.ofText (text : String) : List Lexeme :=
  if text.toList.all isAllowed then Scanner.scan {} (lettersOf text) else [.fault]

end Reconcile.Document
