import Lox.Fault

/-!
The host that a session is embedded in.

The host has things that Lox has no values for, and functions of its own.  What a host function does
is described step by step by an action: it may use the session as the host does from outside, keep
things in mind, give a result or raise an error.
-/

namespace Lox

/-- What a run comes to. -/
inductive Report where
  | finished
  | rejected (problems : List Diagnostic)
  | failed (error : RuntimeError)

/-- The lines that tell the user about a run. -/
def Report.lines : Report → List String
  | .finished => []
  | .rejected problems => problems.map Diagnostic.text
  | .failed error => [error.report]

/-- The host's word for the sort of a value. -/
def Value.hostSort : Value → String
  | .nil => "NoneType"
  | .bool _ => "bool"
  | .number _ => "float"
  | .string _ => "str"
  | .native _ _ => "NativeFunction"
  | .closure _ => "LoxFunction"
  | .classObject _ => "LoxClass"
  | .object _ _ => "LoxInstance"

/-- What stands for a value of Lox outside of it. -/
inductive HostForm where
  /-- The value itself. -/
  | plain (value : Value)
  /-- A function of the host that calls the value.  It lets the value be seen. -/
  | wrapper (callable : Value)

namespace HostForm

/-- The host has functions of its own in place of what can be called. -/
def ofValue (v : Value) : HostForm :=
  match v.arity? with
  | some _ => .wrapper v
  | none => .plain v

def value : HostForm → Value
  | .plain v => v
  | .wrapper f => f

def sort : HostForm → String
  | .plain v => v.hostSort
  | .wrapper _ => "function"

end HostForm

/-- What the host gets from a step. -/
inductive Answer where
  | report (report : Report)
  | text (text : Except (List Diagnostic) String)
  | form (form : Except (List Diagnostic) HostForm)
  | nothing

mutual

/-- What a host function does. -/
inductive HostAction where
  | give (result : HostObject)
  | raise (error : Raised)
  /-- Takes a step with the session and goes on with what it comes to, be it an error. -/
  | ask (step : Step) (next : Except Raised Answer → HostAction)
  /-- Goes on with what host functions keep in mind. -/
  | recollect (next : List HostForm → HostAction)
  /-- Keeps these things in mind instead of others. -/
  | keep (things : List HostForm) (next : HostAction)

/-- A thing of the host. -/
inductive HostObject where
  | form (form : HostForm)
  | integer (value : Int)
  /-- A thing of a sort that Lox has no values for. -/
  | foreign (sort : String)
  | function (arity : Nat) (body : List HostForm → HostAction)

/-- What the host can do with a session. -/
inductive Step where
  | run (code : String)
  /-- Runs a thing of a sort that is no text. -/
  | runOther (sort : String)
  | execute (code : String)
  | evaluate (code : String)
  | get (name : String)
  | set (name : String) (object : HostObject)
  | call (callee : HostForm) (arguments : List HostObject)

end

def HostObject.sort : HostObject → String
  | .form f => f.sort
  | .integer _ => "int"
  | .foreign sort => sort
  | .function _ _ => "function"

/-- The code of a native function. -/
inductive Native where
  /-- The time. -/
  | clock
  /-- A line of the input, without its end. -/
  | readLine
  | host (body : List HostForm → HostAction)

end Lox
