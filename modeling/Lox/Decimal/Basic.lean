import Lox.Decimal.Rounding

/-!
Decimal numbers as coefficient and power of ten, and the digits that write and read them.
-/

namespace Lox

/-- The number `coefficient * 10 ^ exponent`. -/
structure Decimal where
  coefficient : Nat
  exponent : Int
  deriving DecidableEq, Repr

namespace Decimal

/-- The word of the double nearest to a decimal. -/
def nearest (d : Decimal) : Nat :=
  if 0 ≤ d.exponent then nearestWord (d.coefficient * Nat.pow 10 d.exponent.toNat) 1
  else nearestWord d.coefficient (Nat.pow 10 (-d.exponent).toNat)

def toFloat (negative : Bool) (d : Decimal) : Float :=
  ofWord negative d.nearest

/--
A decimal with the same nearest double, whose exponent is no larger than its digits ask for.  From
`10 ^ 400` on every number is infinite as a double, and up to `10 ^ -400` every number is zero.
-/
def bounded (d : Decimal) : Decimal :=
  if d.coefficient = 0 then ⟨0, 0⟩
  else if 400 < d.exponent then ⟨1, 400⟩
  else if d.exponent + d.coefficient.log2 + 1 < -400 then ⟨0, 0⟩
  else d

def isDigit (c : Char) : Bool :=
  decide ('0' ≤ c ∧ c ≤ '9')

/-- The number that a row of digits writes, most significant first. -/
def digitsValue (digits : List Char) : Nat :=
  digits.foldl (fun value c => 10 * value + (c.toNat - '0'.toNat)) 0

/-- The digits of a number, most significant first; zero has one digit. -/
def digitsOf (n : Nat) : List Char :=
  Nat.toDigits 10 n

/-- The decimal with these digits before and after the point. -/
def ofDigits (whole fraction : List Char) : Decimal :=
  ⟨digitsValue (whole ++ fraction), -(fraction.length : Int)⟩

/-- The double nearest to digits with an optional point and fraction. -/
def readPositional (text : List Char) : Float :=
  toFloat false (ofDigits (text.takeWhile isDigit) ((text.dropWhile isDigit).drop 1))

end Decimal

end Lox
