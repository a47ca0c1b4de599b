/-!
# Decimal literals

Numbers as documents write them: an optional minus, digits, an optional fraction and an
optional exponent. A literal is read into a whole significand and a power of ten, so nothing
of it is lost.
-/

namespace Reconcile

/-- A decimal number: a significand times a power of ten. -/
structure Decimal where
  /-- Whether a minus stands in front. -/
  negative : Bool
  /-- All digits as one number. -/
  significand : Nat
  /-- The power of ten. -/
  exponent : Int
  /-- Whether the literal has neither a fraction nor an exponent. -/
  isWhole : Bool
  deriving DecidableEq, Repr

namespace Decimal

/-- The number that decimal digits stand for. -/
def digitsValue (digits : List Char) : Nat :=
  digits.foldl (fun value digit => value * 10 + (digit.toNat - '0'.toNat)) 0

/-- The leading minus of a literal and what follows it. -/
def splitMinus : List Char → Bool × List Char
  | '-' :: rest => (true, rest)
  | letters => (false, letters)

/-- The digits of a fraction, if there is one, and what follows them. -/
def splitFraction : List Char → Option (List Char × List Char)
  | '.' :: rest =>
    let digits := rest.takeWhile Char.isDigit
    if digits.isEmpty then none else some (digits, rest.dropWhile Char.isDigit)
  | letters => some ([], letters)

/-- The value of an unsigned exponent that takes up the rest of the literal. -/
def exponentDigits? (digits : List Char) : Option Int :=
  if !digits.isEmpty && digits.all Char.isDigit then some (digitsValue digits) else none

/-- The value of the exponent that takes up the rest of the literal; zero if nothing is left. -/
def exponent? : List Char → Option Int
  | [] => some 0
  | mark :: rest =>
    if mark = 'e' || mark = 'E' then
      match rest with
      | '-' :: digits => (exponentDigits? digits).map (- ·)
      | '+' :: digits => exponentDigits? digits
      | digits => exponentDigits? digits
    else none

/-- Reads a literal. Extra leading zeros are refused. -/
def ofLiteral? (literal : String) : Option Decimal := do
  let (negative, unsigned) := splitMinus literal.toList
  let whole := unsigned.takeWhile Char.isDigit
  guard (!whole.isEmpty && (whole.length == 1 || whole.head? != some '0'))
  let afterWhole := unsigned.dropWhile Char.isDigit
  let (fraction, afterFraction) ← splitFraction afterWhole
  let exponent ← exponent? afterFraction
  return {
    negative
    significand := digitsValue (whole ++ fraction)
    exponent := exponent - fraction.length
    isWhole := afterWhole.isEmpty
  }

end Decimal

end Reconcile
