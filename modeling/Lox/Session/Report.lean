import Lox.Compilation
import Lox.Session.Call
import Lox.Session.Exchange

/-!
What the host can do with a session, given how code is evaluated.
-/

namespace Lox.Eval

/-- Runs the statements of a program up to their end or the first fault. -/
def catchFault (step : Eval Completion) : Eval (Option RuntimeError) := fun s =>
  match step s with
  | .ok .normal s => .ok none s
  | .ok (.returned value) s => .error (.stuck (.strayReturn value)) s
  | .error (.fault e) s => .ok (some e) s
  | .error i s => .error i s

section

variable (run : Environment → List Stmt → Eval Completion)

/-- Runs statements with the distances of their references. -/
def interpret (references : List Reference) (statements : List Stmt) :
    Eval (Option RuntimeError) := do
  modify fun s => { s with hops := s.hops.merge references }
  catchFault (run Session.globals statements)

/-- Runs a program that is accepted, and takes down what becomes of it. -/
def runProgram (code : String) : Eval Report := do
  modify Session.beginRun
  let program := compile code (← get).nextNode
  modify fun s => { s with nextNode := program.nextId }
  if program.problems.isEmpty then
    let error ← interpret run program.references program.statements
    modify fun s => { s with hadRuntimeError := error.isSome }
    match error with
    | some e => return .failed e
    | none => return .finished
  else
    modify fun s => { s with hadStaticError := true }
    return .rejected program.problems

/-- Runs a program that must be accepted and must not fail, and gives what it printed. -/
def executeProgram (code : String) : Eval (Except (List Diagnostic) String) := do
  match ← runProgram run code with
  | .rejected problems => return .error problems
  | .failed error => throw (.fault error)
  | .finished => return .ok ("\n".intercalate (← get).output.toList)

/-- Begins a run of something that turns out to be no text. -/
def runOther (sort : String) : Eval Report := do
  modify Session.beginRun
  hostError (.notText sort)

end

/-- What the host gets for an expression that must be accepted. -/
def evaluateCode (eval : Environment → Expr → Eval Value) (code : String) :
    Eval (Except (List Diagnostic) HostForm) := do
  let reading := compileExpression code (← get).nextNode
  modify fun s => { s with nextNode := reading.nextId }
  match reading.tree with
  | .error problems => return .error problems
  | .ok e => (fun v => .ok (.ofValue v)) <$> eval Session.globals e

/-- Takes a step from outside. -/
def take (eval : Environment → Expr → Eval Value) (run : Environment → List Stmt → Eval Completion)
    (invoke : Token → Value → List Value → Eval Value) : Step → Eval Answer
  | .run code => .report <$> runProgram run code
  | .runOther sort => .report <$> runOther sort
  | .execute code => .text <$> executeProgram run code
  | .evaluate code => .form <$> evaluateCode eval code
  | .get name => (fun form => .form (.ok form)) <$> getGlobal name
  | .set name object => (fun _ => .nothing) <$> setGlobal name object
  | .call callee arguments => (fun form => .form (.ok form)) <$> callForm invoke arguments callee

/-- Takes a step and goes on with what it comes to, be it an error.  What a program that passed its
checks never does is not gone on with. -/
def attempt {α : Type} (step : Eval α) : Eval (Except Raised α) := fun s =>
  match step s with
  | .ok a s => .ok (.ok a) s
  | .error (.fault e) s => .ok (.error (.fault e)) s
  | .error (.host e) s => .ok (.error (.host e)) s
  | .error i s => .error i s

end Lox.Eval
