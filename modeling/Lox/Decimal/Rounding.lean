/-!
The doubles as points of a line.

Forgetting the sign, a finite double is a whole number of steps of `2^-1074`, the distance between
the two smallest doubles.  Its word, the low 63 bits of its representation, counts the doubles below
it, so the order of the words is the order of the numbers.  Rounding a quotient to the nearest
double is then one division of natural numbers.
-/

namespace Lox.Decimal

/-- The word of infinity.  The words below it are those of the finite doubles. -/
def infinityWord : Nat := 2047 * Nat.pow 2 52

/-- How many steps of `2^-1074` the double with this word lies above zero. -/
def steps (word : Nat) : Nat :=
  let binade := Nat.pow 2 52
  if word / binade = 0 then word
  else (binade + word % binade) * Nat.pow 2 (word / binade - 1)

/-- The whole number nearest to `num / den`; a half goes to the even neighbour. -/
def roundHalfEven (num den : Nat) : Nat :=
  let below := num / den
  let twice := 2 * (num % den)
  if twice < den then below
  else if den < twice then below + 1
  else if below % 2 = 0 then below else below + 1

/--
The word of the double nearest to `num / den`, with ties to the even word.

Measured in steps, a number of 53 bits or fewer is its own word.  A longer one loses `shift` bits;
the remaining 53 are rounded, and a carry out of them moves on to the next binade by itself.
-/
def nearestWord (num den : Nat) : Nat :=
  let inSteps := num * Nat.pow 2 1074
  let shift := (inSteps / den).log2 - 52
  min (shift * Nat.pow 2 52 + roundHalfEven inSteps (den * Nat.pow 2 shift)) infinityWord

/-- The double with a given sign and word. -/
def ofWord (negative : Bool) (word : Nat) : Float :=
  Float.ofBits (UInt64.ofNat (if negative then Nat.pow 2 63 + word else word))

/-- The word of a double, its representation without the sign bit. -/
def word (x : Float) : Nat :=
  x.toBits.toNat % Nat.pow 2 63

/-- The sign bit of a double, set for `-0` too. -/
def isNegative (x : Float) : Bool :=
  decide (Nat.pow 2 63 ≤ x.toBits.toNat)

end Lox.Decimal
