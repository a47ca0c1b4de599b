import Reconcile.Number.Binary64

/-!
# Shortest decimals

The text of a binary number has the fewest digits that read back as that number, and among
those the nearest. For one digit, two digits and so on the two neighbours of the number on
that decimal grid are tried; the first grid with a neighbour that rounds back wins.
-/

namespace Reconcile.Binary64

/-- A positive number as a ratio. -/
def ratio (number : Binary64) : Nat × Nat :=
  (number.significand * Nat.pow 2 number.exponent.toNat, Nat.pow 2 (-number.exponent).toNat)

/-- The power of ten of the leading digit of a positive ratio. -/
def leadingPower (numerator denominator : Nat) : Int :=
  if numerator ≥ denominator then (digitCount (numerator / denominator) : Int) - 1
  else
    let shift := digitCount denominator - digitCount numerator
    if numerator * Nat.pow 10 shift ≥ denominator then -(shift : Int) else -((shift : Int) + 1)

/--
Whether a decimal rounds to the number. The numbers that do lie between the midpoints to the
neighbours, which belong to the even significand. Below a power of two the lower neighbour is
twice as near.
-/
def isRoundedFrom (number : Binary64) (digits : Nat) (power : Int) : Bool :=
  let decimal := 4 * digits * Nat.pow 10 power.toNat * Nat.pow 2 (-number.exponent).toNat
  let unit := Nat.pow 10 (-power).toNat * Nat.pow 2 number.exponent.toNat
  let middle := 4 * number.significand
  let narrow := number.significand == Nat.pow 2 52 && number.exponent > lowestExponent
  let low := (middle - if narrow then 1 else 2) * unit
  let high := (middle + 2) * unit
  if number.significand % 2 = 0 then low ≤ decimal && decimal ≤ high
  else low < decimal && decimal < high

/--
The neighbours of a positive number among the multiples of a power of ten: the nearer first,
and of two equally near ones the even first.
-/
def neighbours (number : Binary64) (power : Int) : List Nat :=
  let (numerator, denominator) := number.ratio
  let top := numerator * Nat.pow 10 (-power).toNat
  let bottom := denominator * Nat.pow 10 power.toNat
  let below := top / bottom
  if roundedQuotient top bottom = below then [below, below + 1] else [below + 1, below]

/-- The shortest digits of a positive number with the power of ten that they are multiplied by. -/
def shortest (number : Binary64) : Nat × Int :=
  let (numerator, denominator) := number.ratio
  let leading := leadingPower numerator denominator
  let grid (count : Nat) : Option (Nat × Int) :=
    let power := leading - count
    ((number.neighbours power).find? (number.isRoundedFrom · power)).map (·, power)
  ((List.range 17).findSome? grid).getD (number.significand, 0)

/-- The digits without trailing zeros. -/
def significantDigits (digits : Nat) : List Char :=
  (((Nat.toDigits 10 digits).reverse.dropWhile (· == '0')).reverse)

/-- A row of zeros. -/
def zeros (count : Nat) : List Char :=
  List.replicate count '0'

/--
Writes digits with the given number of them before the point. The point is written where the
leading digit stands for a power of ten from -5 to 15, and there is always a fraction;
other numbers have an exponent.
-/
def digitsText (digits : List Char) (point : Int) : List Char :=
  if 0 < point ∧ point ≤ 16 then
    let whole := digits.take point.toNat ++ zeros (point.toNat - digits.length)
    let fraction := digits.drop point.toNat
    whole ++ '.' :: (if fraction.isEmpty then ['0'] else fraction)
  else if -5 < point ∧ point ≤ 0 then
    '0' :: '.' :: (zeros (-point).toNat ++ digits)
  else
    digits.take 1 ++ (if digits.length > 1 then '.' :: digits.drop 1 else []) ++
      'e' :: (toString (point - 1)).toList

/-- The text of the number. -/
def text (number : Binary64) : String :=
  let unsigned :=
    if number.significand = 0 then ['0', '.', '0']
    else
      let (digits, power) := number.shortest
      digitsText (significantDigits digits) (power + digitCount digits)
  String.ofList (if number.negative then '-' :: unsigned else unsigned)

end Reconcile.Binary64
