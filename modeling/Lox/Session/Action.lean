import Lox.Session

/-!
The steps that evaluation is made of.

A step works on the state of a session and gives a result or an interrupt.  What a step did before
it was interrupted stays done.
-/

namespace Lox

abbrev Eval (α : Type) : Type := EStateM Interrupt Session α

namespace Eval

variable {α : Type}

def fault (t : Token) (f : Fault) : Eval α :=
  throw (.fault ⟨t, f⟩)

def stuck (cause : Stuck) : Eval α :=
  throw (.stuck cause)

def hostError (e : HostError) : Eval α :=
  throw (.host e)

/-- The result of an operator, whose faults are reported at it. -/
def operate (op : Token) : Except Fault α → Eval α
  | .ok value => pure value
  | .error f => fault op f

def access : Except AccessError α → Eval α
  | .ok value => pure value
  | .error e => stuck (.access e)

/-- An identity that no function or class has yet. -/
def newObject : Eval ObjectId :=
  modifyGet fun s => (s.nextObject, { s with nextObject := s.nextObject + 1 })

/-- Makes a new frame inside an environment. -/
def enter (env : Environment) : Eval Environment :=
  modifyGet fun s => (s.frames.inner env, { s with frames := s.frames.push })

def define (env : Environment) (name : String) (value : Value) : Eval Unit :=
  modify fun s => { s with frames := s.frames.define env name value }

def updateFrame (frame : FrameId) (name : String) (value : Value) : Eval Unit :=
  modify fun s => { s with frames := s.frames.update frame (·.set name value) }

/-- The variable that a walk outwards from an environment finds. -/
def walk (env : Environment) (name : Token) : Eval Value := do
  match (← get).frames.find? env name.lexeme with
  | some value => return value
  | none => fault name (.undefinedVariable name.lexeme)

/-- Changes the variable that a walk outwards from an environment finds. -/
def walkAssign (env : Environment) (name : Token) (value : Value) : Eval Unit := do
  match (← get).frames.home? env name.lexeme with
  | some frame => updateFrame frame name.lexeme value
  | none => fault name (.undefinedVariable name.lexeme)

/-- The variable of a name in the frame at a distance. -/
def readAt (env : Environment) (distance : Int) (name : String) : Eval Value := do
  access ((← get).frames.getAt env distance name)

/-- Binds a name in the frame at a distance. -/
def writeAt (env : Environment) (distance : Int) (name : String) (value : Value) : Eval Unit := do
  updateFrame (← access (Frames.frameAt env distance)) name value

/-- The variable of a reference: at its distance, or a global one if it has none. -/
def lookUp (env : Environment) (id : NodeId) (name : Token) : Eval Value := do
  match (← get).hops.find? id with
  | some hops => readAt env hops name.lexeme
  | none => walk Session.globals name

/-- Changes the variable of a reference: at its distance, or a global one if it has none. -/
def assign (env : Environment) (id : NodeId) (name : Token) (value : Value) : Eval Unit := do
  match (← get).hops.find? id with
  | some hops => writeAt env hops name.lexeme value
  | none => walkAssign Session.globals name value

end Eval

end Lox
