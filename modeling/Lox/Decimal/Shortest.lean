import Lox.Decimal.Basic

/-!
The shortest decimal that is nearest to a given double only.

For one digit, two digits and so on, the two neighbours of the number among the decimals with that
many digits are tried; the first of them that rounds back to the number is taken.
-/

namespace Lox.Decimal

/-- The power of ten of the first digit of the positive number `num / den`. -/
def leadingExponent (num den : Nat) : Int :=
  if den ≤ num then ((digitsOf (num / den)).length : Int) - 1
  else -((digitsOf ((den - 1) / num)).length : Int)

/-- The number `num / den` as a quotient of naturals in units of `10 ^ unit`. -/
def inUnits (num den : Nat) (unit : Int) : Nat × Nat :=
  if 0 ≤ unit then (num, den * Nat.pow 10 unit.toNat)
  else (num * Nat.pow 10 (-unit).toNat, den)

/--
The neighbour of the double `word` on the grid of multiples of `10 ^ unit` that rounds back to it.
Of two such neighbours the nearer is taken, and of two equally near ones the even one.
-/
def onGrid? (word : Nat) (unit : Int) : Option Decimal :=
  let (num, den) := inUnits (steps word) (Nat.pow 2 1074) unit
  let below : Decimal := ⟨num / den, unit⟩
  let above : Decimal := ⟨num / den + 1, unit⟩
  match decide (below.nearest = word), decide (above.nearest = word) with
  | true, true => some ⟨roundHalfEven num den, unit⟩
  | true, false => some below
  | false, true => some above
  | false, false => none

/-- The number itself: every double has finitely many decimal digits. -/
def exact (word : Nat) : Decimal :=
  ⟨steps word * Nat.pow 5 1074, -1074⟩

/-- Seventeen digits tell any two doubles apart. -/
def maxDigits : Nat := 17

/-- The decimal of fewest digits that rounds to the double `word`, for a finite word above zero. -/
def shortest (word : Nat) : Decimal :=
  let leading := leadingExponent (steps word) (Nat.pow 2 1074)
  ((List.range maxDigits).findSome? fun (more : Nat) => onGrid? word (leading - more)).getD
    (exact word)

end Lox.Decimal
