import Lox.Operator
import Lox.Session.Report

/-!
The meaning of Lox.

Evaluation takes a number of steps that it may nest; an evaluation that needs more of them is
interrupted as out of fuel, which is no result of the program.  A result does not depend on the
number of steps.
-/

namespace Lox.Eval

mutual

/-- The value of an expression in an environment. -/
def eval : Nat → Environment → Expr → Eval Value
  | 0, _, _ => throw .outOfFuel
  | n + 1, env, e =>
    match e with
    | .literal _ value => return .ofLiteral value
    | .grouping _ inner => eval n env inner
    | .unary _ op right => do
      let right ← eval n env right
      operate op (applyUnary op right)
    | .binary _ left op right => do
      let left ← eval n env left
      let right ← eval n env right
      operate op (applyBinary op left right)
    | .logical _ left op right => do
      let left ← eval n env left
      if left.isTruthy = decide (op.kind = .kwOr) then return left else eval n env right
    | .read id name => lookUp env id name
    | .assign id name value => do
      let value ← eval n env value
      assign env id name value
      return value
    | .call _ callee paren arguments => do
      let callee ← eval n env callee
      let arguments ← evalAll n env arguments
      checkCall paren callee arguments.length
      invoke n paren callee arguments
    | .get _ object name => do
      match ← eval n env object with
      | .object id cls => property id cls name
      | _ => fault name .propertyOfNonInstance
    | .set _ object name value => do
      match ← eval n env object with
      | .object id _ => do
        let value ← eval n env value
        setField id name.lexeme value
        return value
      | _ => fault name .fieldOfNonInstance
    | .self id keyword => lookUp env id keyword
    | .super id _ method => superMethod env id method
    | .missing => stuck (.unevaluable missingSort)
    | .misplaced stmt => stuck (.unevaluable stmt.sort)

/-- The values of expressions, from left to right. -/
def evalAll : Nat → Environment → List Expr → Eval (List Value)
  | 0, _, _ => throw .outOfFuel
  | _ + 1, _, [] => return []
  | n + 1, env, e :: es => do
    let value ← eval n env e
    let values ← evalAll n env es
    return value :: values

/-- Executes a statement in an environment. -/
def exec : Nat → Environment → Stmt → Eval Completion
  | 0, _, _ => throw .outOfFuel
  | n + 1, env, stmt =>
    match stmt with
    | .expression value => do
      let _ ← eval n env value
      return .normal
    | .print value => do
      let value ← eval n env value
      modify (Session.printLine value.display)
      return .normal
    | .var name none => do
      define env name.lexeme .nil
      return .normal
    | .var name (some value) => do
      let value ← eval n env value
      define env name.lexeme value
      return .normal
    | .block body => do
      let inner ← enter env
      execAll n inner body
    | .cond condition yes no => do
      let condition ← eval n env condition
      if condition.isTruthy then exec n env yes
      else
        match no with
        | none => return .normal
        | some no => exec n env no
    | .loop condition body => do
      let condition ← eval n env condition
      if condition.isTruthy then
        match ← exec n env body with
        | .normal => exec n env stmt
        | .returned value => return .returned value
      else return .normal
    | .function decl => do
      let f ← newClosure env .function decl
      define env decl.name.lexeme (.closure f)
      return .normal
    | .ret _ none => return .returned .nil
    | .ret _ (some value) => do
      let value ← eval n env value
      return .returned value
    | .classDecl name base methods => do
      declareClass env name base methods
      return .normal
    | .missing => stuck (.unexecutable missingSort)
    | .misplaced expr => stuck (.unexecutable expr.sort)

/-- Executes statements one after the other, until one of them returns. -/
def execAll : Nat → Environment → List Stmt → Eval Completion
  | 0, _, _ => throw .outOfFuel
  | _ + 1, _, [] => return .normal
  | n + 1, env, stmt :: body => do
    match ← exec n env stmt with
    | .normal => execAll n env body
    | .returned value => return .returned value

/-- Calls a value that takes these arguments.  Natives do not count as calls. -/
def invoke : Nat → Token → Value → List Value → Eval Value
  | 0, _, _, _ => throw .outOfFuel
  | n + 1, site, callee, arguments =>
    match callee with
    | .native id _ => do
      match (← get).natives[id]? with
      | some .clock => readClock
      | some .readLine => readLine
      | some (.host body) => perform n (body (arguments.map .ofValue))
      | none => stuck .unknownNative
    | .closure f => nested site (activate (execAll n) f arguments)
    | .classObject cls => nested site (instantiate (execAll n) cls arguments)
    | _ => fault site .notCallable

/-- Does what a host function does. -/
def perform : Nat → HostAction → Eval Value
  | 0, _ => throw .outOfFuel
  | n + 1, action =>
    match action with
    | .give result => toValue result
    | .raise error => throw error.interrupt
    | .ask step next => do
      let outcome ← attempt (take (eval n) (execAll n) (invoke n) step)
      perform n (next outcome)
    | .recollect next => do perform n (next (← get).memory)
    | .keep things next => do
      modify fun s => { s with memory := things }
      perform n next

end

end Lox.Eval
