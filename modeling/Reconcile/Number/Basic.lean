import Reconcile.Number.Shortest

/-!
# Numbers

The numbers that settings hold. A literal without fraction and exponent is an integer as far
as 64 bits reach; every other literal is a binary number of double precision.
-/

namespace Reconcile

/-- A number of a document. -/
inductive Number where
  | integer (value : Int)
  | float (value : Binary64)
  deriving DecidableEq, Repr

namespace Number

/-- The least value of a signed word of 64 bits. -/
def leastSignedWord : Int := -0x8000000000000000

/-- The greatest value of a signed word of 64 bits. -/
def greatestSignedWord : Int := 0x7fffffffffffffff

/-- The greatest value of an unsigned word of 64 bits. -/
def greatestUnsignedWord : Int := 0xffffffffffffffff

/-- Whether an integer is a signed or an unsigned word of 64 bits. -/
def isWord (value : Int) : Bool :=
  leastSignedWord ≤ value && value ≤ greatestUnsignedWord

/-- The number that a decimal stands for, unless it is out of range. -/
def ofDecimal? (decimal : Decimal) : Option Number :=
  let value : Int := if decimal.negative then -decimal.significand else decimal.significand
  if decimal.isWhole && isWord value then some (.integer value)
  else (Binary64.ofDecimal? decimal).map .float

/-- The value of an integer that fits a signed word of 64 bits. -/
def signedWord? : Number → Option Int
  | .integer value =>
    if leastSignedWord ≤ value ∧ value ≤ greatestSignedWord then some value else none
  | .float _ => none

/-- The text of the number. -/
def text : Number → String
  | .integer value => toString value
  | .float value => value.text

end Number

end Reconcile
