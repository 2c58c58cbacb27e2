import Lox.Session.Evaluation

/-!
What can be done with a session from outside.

Each step is given the number of steps that evaluation may nest.  A step that gives a value leaves
the output and the flags of the last run alone; `run` and `execute` begin with new ones.
-/

namespace Lox

namespace Session

/-- More steps than any program takes that ends within a lifetime. -/
def ampleFuel : Nat := Nat.pow 10 18

/-- Runs a program and reports on it. -/
def run (fuel : Nat) (code : String) : Eval Report :=
  Eval.runProgram (Eval.execAll fuel) code

/-- Runs a program that must be accepted and must not fail, and gives what it printed. -/
def execute (fuel : Nat) (code : String) : Eval (Except (List Diagnostic) String) :=
  Eval.executeProgram (Eval.execAll fuel) code

/-- What the host gets for an expression that must be accepted. -/
def evaluate (fuel : Nat) (code : String) : Eval (Except (List Diagnostic) HostForm) :=
  Eval.evaluateCode (Eval.eval fuel) code

/-- Calls what the host has for a value. -/
def call (fuel : Nat) (callee : HostForm) (arguments : List HostObject) : Eval HostForm :=
  Eval.callForm (Eval.invoke fuel) arguments callee

/-- Runs statements that were put together by hand. -/
def runStatements (fuel : Nat) (references : List Reference) (statements : List Stmt) :
    Eval (Option RuntimeError) :=
  Eval.interpret (Eval.execAll fuel) references statements

/-- The names of the fields of an instance, in order. -/
def fieldNames (s : Session) (id : InstanceId) : List String :=
  (s.fields.getD id []).names.mergeSort fun a b => decide (a ≤ b)

end Session

def Step.take (fuel : Nat) (step : Step) : Eval Answer :=
  Eval.take (Eval.eval fuel) (Eval.execAll fuel) (Eval.invoke fuel) step

end Lox
