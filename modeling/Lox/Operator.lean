import Lox.Fault

/-!
The operators on values.
-/

namespace Lox

/-- An operator between two numbers. -/
def arithmetic (op : Token) (a b : Float) : Except Fault Value :=
  match op.kind with
  | .minus => .ok (.number (a - b))
  | .star => .ok (.number (a * b))
  | .slash => .ok (.number (a / b))
  | .greater => .ok (.bool (decide (b < a)))
  | .greaterEqual => .ok (.bool (decide (b ≤ a)))
  | .less => .ok (.bool (decide (a < b)))
  | .lessEqual => .ok (.bool (decide (a ≤ b)))
  | _ => .error (.unknownBinary op.lexeme)

/-- The sum of two numbers, or two strings one after the other. -/
def add : Value → Value → Except Fault Value
  | .number a, .number b => .ok (.number (a + b))
  | .string a, .string b => .ok (.string (a ++ b))
  | _, _ => .error .operandsNotAddable

/-- An operator between two values. -/
def applyBinary (op : Token) (left right : Value) : Except Fault Value :=
  match op.kind with
  | .equalEqual => .ok (.bool (left.equals right))
  | .bangEqual => .ok (.bool (!left.equals right))
  | .plus => add left right
  | _ =>
    match left, right with
    | .number a, .number b => arithmetic op a b
    | _, _ => .error .operandsNotNumbers

/-- An operator before a value. -/
def applyUnary (op : Token) (right : Value) : Except Fault Value :=
  match op.kind with
  | .bang => .ok (.bool (!right.isTruthy))
  | .minus =>
    match right with
    | .number x => .ok (.number (-x))
    | _ => .error .operandNotNumber
  | _ => .error (.unknownUnary op.lexeme)

end Lox
