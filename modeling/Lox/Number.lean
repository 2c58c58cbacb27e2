import Lox.Decimal.Layout

/-!
The texts of Lox numbers.

A number has two texts.  `literalText` is the shortest decimal that reads back as the same number
and always looks like a number with a fraction or an exponent.  `display`, which `print` shows,
writes whole numbers as whole numbers.
-/

namespace Lox.Number

/--
Numbers from one ten-thousandth up to, but not including, ten to the sixteenth are written
positionally, and exponents have at least two digits.
-/
def layout : Decimal.Layout := ⟨-4, 16, 2⟩

/-- The text of a double without its sign. -/
def magnitudeText (word : Nat) : List Char :=
  if word = 0 then ['0', '.', '0'] else layout.write (Decimal.shortest word).significand

def signed (negative : Bool) (text : List Char) : String :=
  String.ofList (if negative then '-' :: text else text)

def nanText : String := "nan"

def infinityText (negative : Bool) : String :=
  signed negative ['i', 'n', 'f']

/-- The text of a number literal; `nan` shows no sign. -/
def literalText (x : Float) : String :=
  let word := Decimal.word x
  if Decimal.infinityWord < word then nanText
  else if word = Decimal.infinityWord then infinityText (Decimal.isNegative x)
  else signed (Decimal.isNegative x) (magnitudeText word)

/-- Whole numbers are shown digit by digit below this bound. -/
def wholeBound : Nat := Nat.pow 10 21

/-- The whole number that a double is, if it is one that is shown digit by digit. -/
def whole? (word : Nat) : Option Nat :=
  let steps := Decimal.steps word
  let one := Nat.pow 2 1074
  if steps ≠ 0 ∧ steps % one = 0 ∧ steps / one < wholeBound then some (steps / one)
  else none

/-- A text without the point and zero that mark it as a whole number. -/
def withoutPointZero (text : List Char) : List Char :=
  match text.reverse with
  | '0' :: '.' :: rest => rest.reverse
  | _ => text

/-- The text that `print` shows for a number. -/
def display (x : Float) : String :=
  let word := Decimal.word x
  if Decimal.infinityWord < word then nanText
  else if word = Decimal.infinityWord then infinityText (Decimal.isNegative x)
  else
    signed (Decimal.isNegative x) <|
      match whole? word with
      | some n => Decimal.digitsOf n
      | none => withoutPointZero (magnitudeText word)

/-- The number that a text denotes: a decimal, `inf` or `nan`, with an optional sign. -/
def ofText? (text : String) : Option Float :=
  let unsigned (negative : Bool) (text : List Char) : Option Float :=
    if text = ['n', 'a', 'n'] then some (0 / 0)
    else if text = ['i', 'n', 'f'] then some (Decimal.ofWord negative Decimal.infinityWord)
    else (Decimal.read? text).map fun d => d.bounded.toFloat negative
  match text.toList with
  | '-' :: rest => unsigned true rest
  | '+' :: rest => unsigned false rest
  | rest => unsigned false rest

/-- The number nearest to an integer, unless that is beyond every finite number. -/
def ofInt? (n : Int) : Option Float :=
  let word := Decimal.nearestWord n.natAbs 1
  if word < Decimal.infinityWord then some (Decimal.ofWord (decide (n < 0)) word) else none

end Lox.Number
