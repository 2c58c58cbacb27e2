import Lox.Session.Object

/-!
Calls: how deep they may nest, how arguments reach parameters, and what a call gives.
-/

namespace Lox

/-- How a statement ends. -/
inductive Completion where
  | normal
  | returned (value : Value)

def Completion.value : Completion → Value
  | .normal => .nil
  | .returned value => value

namespace Eval

variable {α : Type}

/-- A step one call deeper, unless that is too deep or cannot be told to be. -/
def nested (site : Token) (step : Eval α) : Eval α := fun s =>
  if s.limits.calls = .blank then .error (.host .blankLimit) s
  else if s.limits.exceeded (s.depth + 1) then .error (.fault ⟨site, .stackOverflow⟩) s
  else
    match step { s with depth := s.depth + 1 } with
    | .ok value s => .ok value { s with depth := s.depth - 1 }
    | .error i s => .error i { s with depth := s.depth - 1 }

/-- Binds parameters to as many arguments. -/
def defineAll (env : Environment) : List Token → List Value → Eval Unit
  | [], [] => return ()
  | param :: params, argument :: arguments => do
    define env param.lexeme argument
    defineAll env params arguments
  | _, _ => stuck .unmatchedArguments

/-- Runs the body of a function in a new frame.  An initializer always gives its instance. -/
def activate (run : Environment → List Stmt → Eval Completion) (f : Closure)
    (arguments : List Value) : Eval Value := do
  let env ← enter f.env
  defineAll env f.decl.params arguments
  let completion ← run env f.decl.body
  if f.role = .initializer then readAt f.env 0 "this" else return completion.value

/-- Makes an instance and lets its initializer, if there is one, set it up. -/
def instantiate (run : Environment → List Stmt → Eval Completion) (cls : Class)
    (arguments : List Value) : Eval Value := do
  let made ← newInstance cls
  match cls.initializer? with
  | none => return made
  | some method =>
    let _ ← activate run (← bindThis method made) arguments
    return made

/-- Insists that a value can be called with so many arguments. -/
def checkCall (site : Token) (callee : Value) (count : Nat) : Eval Unit :=
  match callee.arity? with
  | none => fault site .notCallable
  | some arity => if count = arity then return () else fault site (.wrongCount arity count)

end Eval

end Lox
