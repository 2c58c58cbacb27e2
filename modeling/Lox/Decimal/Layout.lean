import Lox.Decimal.Shortest

/-!
How the digits of a number are laid out, and how such a text is read back.

A `Layout` says which numbers are written positionally and how long an exponent is at least; a text
in any layout is read by `read?`.
-/

namespace Lox.Decimal

/-- Digits without the zeros at their end, and the power of ten of the first one. -/
structure Significand where
  digits : List Char
  leading : Int
  deriving DecidableEq, Repr

def significand (d : Decimal) : Significand :=
  let digits := digitsOf d.coefficient
  ⟨(digits.reverse.dropWhile (· == '0')).reverse, d.exponent + (digits.length : Int) - 1⟩

structure Layout where
  /-- The least power of ten of a first digit that is written positionally. -/
  positionalFrom : Int
  /-- The least power of ten above those that are written positionally. -/
  positionalBelow : Int
  /-- The least number of digits of an exponent. -/
  exponentDigits : Nat
  deriving DecidableEq, Repr

def zeros (n : Nat) : List Char :=
  List.replicate n '0'

/-- Digits around a point, with at least one digit on either side of it. -/
def Significand.positional (s : Significand) : List Char :=
  if s.leading < 0 then '0' :: '.' :: zeros ((-s.leading).toNat - 1) ++ s.digits
  else
    let whole := s.leading.toNat + 1
    let fraction := s.digits.drop whole
    s.digits.take whole ++ zeros (whole - s.digits.length) ++
      '.' :: (if fraction.isEmpty then ['0'] else fraction)

/-- One digit, a point if more follow, and a signed exponent. -/
def Significand.scientific (layout : Layout) (s : Significand) : List Char :=
  let exponent := digitsOf s.leading.natAbs
  let fraction := s.digits.drop 1
  s.digits.take 1 ++ (if fraction.isEmpty then [] else '.' :: fraction) ++
    'e' :: (if s.leading < 0 then '-' else '+') ::
      zeros (layout.exponentDigits - exponent.length) ++ exponent

def Layout.write (layout : Layout) (s : Significand) : List Char :=
  if layout.positionalFrom ≤ s.leading ∧ s.leading < layout.positionalBelow then s.positional
  else s.scientific layout

/-- Digits with an optional sign. -/
def readExponent? (text : List Char) : Option Int :=
  let value (digits : List Char) : Option Nat :=
    if digits ≠ [] ∧ digits.all isDigit then some (digitsValue digits) else none
  match text with
  | '-' :: digits => (value digits).map fun n => -(n : Int)
  | '+' :: digits => (value digits).map Int.ofNat
  | digits => (value digits).map Int.ofNat

/-- Digits with an optional fraction and an optional exponent. -/
def read? (text : List Char) : Option Decimal :=
  let whole := text.takeWhile isDigit
  let afterWhole := text.dropWhile isDigit
  let (fraction, afterFraction) :=
    match afterWhole with
    | '.' :: rest => (rest.takeWhile isDigit, rest.dropWhile isDigit)
    | rest => ([], rest)
  let d := ofDigits whole fraction
  if whole ++ fraction = [] then none
  else
    match afterFraction with
    | [] => some d
    | mark :: exponent =>
      if mark = 'e' ∨ mark = 'E' then
        (readExponent? exponent).map fun shift => { d with exponent := d.exponent + shift }
      else none

end Lox.Decimal
