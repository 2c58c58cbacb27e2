import Lox.Host
import Lox.Scope.Resolution
import Lox.Session.Limits

/-!
The state of a session: everything that a run can leave behind for later runs.
-/

namespace Lox

/-- The distances of references, by the number of the reference. -/
structure Hops where
  table : Array (Option Nat)

namespace Hops

def empty : Hops := ⟨#[]⟩

def find? (h : Hops) (id : NodeId) : Option Nat :=
  (h.table[id]?).join

/-- Enters a distance, after making room for its number. -/
def insert (h : Hops) (id : NodeId) (hops : Nat) : Hops :=
  let room := h.table ++ Array.replicate (id + 1 - h.table.size) none
  ⟨room.setIfInBounds id (some hops)⟩

/-- Enters the distances that were found for a program. -/
def merge (h : Hops) (references : List Reference) : Hops :=
  references.foldl (fun h r => h.insert r.id r.hops) h

end Hops

structure Session where
  frames : Frames Value
  /-- The fields of instances, by the number of the instance. -/
  fields : Array (Bindings Value)
  natives : Array Native
  /-- The identity of the next function or class. -/
  nextObject : ObjectId
  hops : Hops
  /-- The number of the next node. -/
  nextNode : NodeId
  /-- How many calls of functions and classes are going on. -/
  depth : Nat
  limits : Limits
  /-- The lines printed since the last run began. -/
  output : Array String
  /-- Everything written to standard output. -/
  written : String
  /-- What is left of standard input. -/
  input : List Char
  /-- The readings of the clock, and how many of them were taken. -/
  readings : Nat → Float
  ticks : Nat
  /-- What host functions keep in mind. -/
  memory : List HostForm
  hadStaticError : Bool
  hadRuntimeError : Bool

namespace Session

/-- The frame of the global variables. -/
def globalFrame : FrameId := 0

def globals : Environment := [globalFrame]

/-- A session in which nothing has run.  Only the natives are defined. -/
def start (limits : Limits) (input : List Char) (readings : Nat → Float) : Session where
  frames := ⟨#[[("clock", .native 0 0), ("readLine", .native 1 0)]]⟩
  fields := #[]
  natives := #[.clock, .readLine]
  nextObject := 0
  hops := .empty
  nextNode := 0
  depth := 0
  limits := limits
  output := #[]
  written := ""
  input := input
  readings := readings
  ticks := 0
  memory := []
  hadStaticError := false
  hadRuntimeError := false

def write (text : String) (s : Session) : Session :=
  { s with written := s.written ++ text }

/-- Prints a line. -/
def printLine (line : String) (s : Session) : Session :=
  { s with output := s.output.push line, written := s.written ++ line ++ "\n" }

/-- The first line of a text with its end, and the text after it. -/
def splitLine : List Char → List Char × List Char
  | [] => ([], [])
  | c :: cs =>
    if c = '\n' then ([c], cs)
    else
      let (line, rest) := splitLine cs
      (c :: line, rest)

/-- Takes a line of the input, with its end; nothing at the end of the input. -/
def takeLine (s : Session) : List Char × Session :=
  let (line, rest) := splitLine s.input
  (line, { s with input := rest })

/-- A line without the line breaks and carriage returns at its end. -/
def withoutLineEnd (line : List Char) : List Char :=
  (line.reverse.dropWhile fun c => c == '\n' || c == '\r').reverse

/-- Forgets the output and the flags of the last run. -/
def beginRun (s : Session) : Session :=
  { s with output := #[], hadStaticError := false, hadRuntimeError := false }

end Session

end Lox
