import Lox.Session.Action

/-!
What passes between a session and the world around it: time, lines of input, and the things of the
host.
-/

namespace Lox

/-! ## Things of the host -/

/-- Whether the host has no other form of a value, and none of its parts is a value. -/
def Value.isBasic : Value → Bool
  | .nil | .bool _ | .number _ | .string _ => true
  | _ => false

/-- Goes on to the end of a function that takes one step. -/
def HostAction.conclude : Except Raised Answer → HostAction
  | .ok (.form (.ok form)) => .give (.form form)
  | .ok _ => .give (.form (.plain .nil))
  | .error error => .raise error

namespace HostObject

/-- Nothing, a truth value, a text or a number of Lox. -/
def basic? : HostObject → Option Value
  | .form (.plain v) => if v.isBasic then some v else none
  | _ => none

def integer? : HostObject → Option Int
  | .integer n => some n
  | _ => none

/-- A value of Lox that can be called, without the function that stands for it. -/
def callable? : HostObject → Option Value
  | .form (.plain v) => if v.arity?.isSome then some v else none
  | _ => none

/-- The value that a wrapper lets be seen. -/
def wrapped? : HostObject → Option Value
  | .form (.wrapper f) => some f
  | _ => none

/-- The number of parameters and the code of a function of the host.  A wrapper is one, too; its
parameter stands for any number of arguments. -/
def code? : HostObject → Option (Nat × (List HostForm → HostAction))
  | .function arity body => some (arity, body)
  | .form (.wrapper f) => some (1, fun forms =>
      .ask (.call (.wrapper f) (forms.map .form)) HostAction.conclude)
  | _ => none

end HostObject

namespace Eval

/-! ## Exchange -/

def readClock : Eval Value :=
  modifyGet fun s => (.number (s.readings s.ticks), { s with ticks := s.ticks + 1 })

def readLine : Eval Value := do
  let line ← modifyGet Session.takeLine
  return .string (String.ofList (Session.withoutLineEnd line))

/-- The value of an integer of the host, given the number nearest to it. -/
def nearestNumber : Option Float → Eval Value
  | some x => return .number x
  | none => hostError .integerTooLarge

/-- Makes a native function of code of the host. -/
def hire (arity : Nat) (body : List HostForm → HostAction) : Eval Value :=
  modifyGet fun s =>
    (.native s.natives.size arity, { s with natives := s.natives.push (.host body) })

/-- The value of Lox that a thing of the host is taken for.  A wrapper is taken for what it wraps, as
this is asked before it is asked whether the thing is a function. -/
def toValue (o : HostObject) : Eval Value :=
  match o.basic? with
  | some v => return v
  | none =>
    match o.integer? with
    | some n => nearestNumber (Number.ofInt? n)
    | none =>
      match o.callable? with
      | some f => return f
      | none =>
        match o.wrapped? with
        | some f => return f
        | none =>
          match o.code? with
          | some (arity, body) => hire arity body
          | none => hostError (.notConvertible o.sort)

def toValues : List HostObject → Eval (List Value)
  | [] => return []
  | object :: objects => do
    let value ← toValue object
    return value :: (← toValues objects)

/-- The arguments of a call that the host makes.  Their number is looked at first. -/
def hostArguments (callee : Value) (arguments : List HostObject) : Eval (List Value) :=
  match callee.arity? with
  | none => hostError (.notCallable callee.hostSort)
  | some arity =>
    if arguments.length = arity then toValues arguments
    else hostError (.wrongCount arity arguments.length)

/-- Where calls that the host makes seem to stand. -/
def hostSite : Token := ⟨.rightParen, ")", .nil, 0⟩

/-- Calls what the host has for a value.  Only wrappers can be called. -/
def callForm (invoke : Token → Value → List Value → Eval Value) (arguments : List HostObject) :
    HostForm → Eval HostForm
  | .plain v => hostError (.notCallable v.hostSort)
  | .wrapper f => do
    let values ← hostArguments f arguments
    .ofValue <$> invoke hostSite f values

/-- A global variable, or `nil` if there is none of that name. -/
def getGlobal (name : String) : Eval HostForm := do
  return .ofValue (((← get).frames.find? Session.globals name).getD .nil)

/-- Defines a global variable. -/
def setGlobal (name : String) (object : HostObject) : Eval Unit := do
  define Session.globals name (← toValue object)

end Eval

end Lox
