import Lox.Host

/-!
Host functions that a session can be tried with.
-/

namespace Lox.Catalogue

def nullary (action : HostAction) : HostObject :=
  .function 0 fun _ => action

def unary (action : HostForm → HostAction) : HostObject :=
  .function 1 fun forms => action (forms.headD (.plain .nil))

def binary (action : HostForm → HostForm → HostAction) : HostObject :=
  .function 2 fun forms =>
    action (forms.headD (.plain .nil)) (forms.tail.headD (.plain .nil))

def giveForm (form : HostForm) : HostAction :=
  .give (.form form)

def giveInteger (n : Int) : HostAction :=
  .give (.integer n)

/-- Calls a form and goes on with what that gives.  Errors are let through. -/
def call (callee : HostForm) (arguments : List HostForm) (next : HostForm → HostAction) :
    HostAction :=
  .ask (.call callee (arguments.map .form)) fun
    | .ok (.form (.ok form)) => next form
    | .ok _ => next (.plain .nil)
    | .error error => .raise error

/-- Gives its argument. -/
def identity : HostObject :=
  unary giveForm

/-- Gives the second of two arguments. -/
def second : HostObject :=
  binary fun _ y => giveForm y

def seven : HostObject :=
  nullary (giveInteger 7)

/-- Gives nothing. -/
def noop : HostObject :=
  nullary (giveForm (.plain .nil))

/-- Gives the host's word for the sort of its argument. -/
def typename : HostObject :=
  unary fun x => giveForm (.plain (.string x.sort))

/-- Gives something that no value of Lox stands for. -/
def list : HostObject :=
  nullary (.give (.foreign "list"))

/-- Raises an error. -/
def fail : HostObject :=
  nullary (.raise (.host (.raised "boom")))

/-- Calls its first argument with its second. -/
def apply : HostObject :=
  binary fun f x => call f [x] giveForm

/-- Gives the function that calls `g` and then calls `f` with the result. -/
def compose : HostObject :=
  binary fun f g => .give (unary fun x => call g [x] fun y => call f [y] giveForm)

/-- Gives the number of its arguments. -/
def varargs : HostObject :=
  .function 1 fun forms => giveInteger forms.length

/-- Runs a program in the same session and gives the number of lines of its report. -/
def reenter : HostObject :=
  unary fun code =>
    let step : Step := match code with
      | .plain (.string text) => .run text
      | other => .runOther other.sort
    .ask step fun
      | .ok (.report report) => giveInteger report.lines.length
      | .ok _ => giveInteger 0
      | .error error => .raise error

def find? : String → Option HostObject
  | "identity" => some identity
  | "second" => some second
  | "seven" => some seven
  | "noop" => some noop
  | "typename" => some typename
  | "list" => some list
  | "fail" => some fail
  | "apply" => some apply
  | "compose" => some compose
  | "varargs" => some varargs
  | "defaults" => some second
  | "reenter" => some reenter
  | _ => none

end Lox.Catalogue
