import Lox.Bindings

/-!
The variables of a running program.

Variables live in frames.  An environment is the row of frames that can be seen from a place, from
the innermost to the outermost; a frame can be part of many environments.  Variables are found in
two ways: by a walk from the innermost frame outwards, or in the frame at a given distance.
-/

namespace Lox

abbrev FrameId := Nat

/-- Frames from the innermost out.  The empty environment lies above the outermost frame. -/
abbrev Environment := List FrameId

/-- Why there is no variable at a distance. -/
inductive AccessError where
  /-- The frame at that distance does not bind the name. -/
  | unbound
  /-- There is no frame at that distance. -/
  | aboveRoot
  deriving DecidableEq, Repr

/-- All frames that were ever made. -/
structure Frames (α : Type) where
  frames : Array (Bindings α)

namespace Frames

variable {α : Type}

/-- The variables of a frame. -/
def bindings (fs : Frames α) (frame : FrameId) : Bindings α :=
  fs.frames.getD frame []

def update (fs : Frames α) (frame : FrameId) (f : Bindings α → Bindings α) : Frames α :=
  ⟨fs.frames.modify frame f⟩

/-- The environment with a new frame inside another environment. -/
def inner (fs : Frames α) (env : Environment) : Environment :=
  fs.frames.size :: env

/-- Makes the new frame of `inner`. -/
def push (fs : Frames α) : Frames α :=
  ⟨fs.frames.push []⟩

/-- Binds a name in the innermost frame. -/
def define (fs : Frames α) (env : Environment) (name : String) (value : α) : Frames α :=
  match env with
  | [] => fs
  | frame :: _ => fs.update frame (·.set name value)

/-- The variable of a name in the innermost frame that binds it. -/
def find? (fs : Frames α) : Environment → String → Option α
  | [], _ => none
  | frame :: outer, name =>
    match (fs.bindings frame).find? name with
    | some value => some value
    | none => find? fs outer name

/-- The innermost frame that binds a name. -/
def home? (fs : Frames α) : Environment → String → Option FrameId
  | [], _ => none
  | frame :: outer, name =>
    if (fs.bindings frame).binds name then some frame else home? fs outer name

/-- The environment some frames further out.  A distance below zero stays where it is. -/
def ancestor? (env : Environment) (distance : Int) : Option Environment :=
  if distance.toNat ≤ env.length then some (env.drop distance.toNat) else none

/-- The frame at a distance. -/
def frameAt (env : Environment) (distance : Int) : Except AccessError FrameId :=
  match ancestor? env distance with
  | some (frame :: _) => .ok frame
  | _ => .error .aboveRoot

/-- The variable of a name in the frame at a distance. -/
def getAt (fs : Frames α) (env : Environment) (distance : Int) (name : String) :
    Except AccessError α :=
  match frameAt env distance with
  | .error e => .error e
  | .ok frame =>
    match (fs.bindings frame).find? name with
    | some value => .ok value
    | none => .error .unbound

end Frames

end Lox
