import Lox.CommandLine.Arguments
import Lox.CommandLine.FileTree
import Lox.Session.Steps
import Lox.Syntax.Printer
import Lox.Text.Lines

/-!
The command: it runs a script, shows the tree of one, or prompts for lines to run.

What the command does is a function of its words, the files it can read and its standard input.
-/

namespace Lox.CommandLine

/-- Why the command breaks off. -/
inductive Failure where
  /-- The script is not UTF-8. -/
  | undecodable
  /-- The path of the script holds a character that no path can hold. -/
  | nulInPath
  /-- Evaluation did not come to an end, or came to none that the language knows. -/
  | interrupted (cause : Interrupt)

def Failure.message : Failure → String
  | .undecodable => "the script is not UTF-8"
  | .nulInPath => "embedded null byte"
  | .interrupted (.fault error) => error.report
  | .interrupted (.host error) => error.message
  | .interrupted (.stuck cause) => cause.message
  | .interrupted .outOfFuel => "too many steps"

/-- What the command leaves behind. -/
inductive Outcome where
  | exited (status : Nat) (stdout stderr : String)
  /-- The words make no sense; the message says why. -/
  | misused (message : String)
  | helped
  /-- The command breaks off, without a status of its own. -/
  | failed (failure : Failure) (stdout stderr : String)

def exitOk : Nat := 0

def exitFailed : Nat := 1

def exitMisused : Nat := 2

def exitStaticError : Nat := 64

def exitNoInput : Nat := 66

def exitRuntimeError : Nat := 70

/-- The name that the command goes by. -/
def commandName : String := "pylox"

/-- What the command can be asked. -/
def helpText : String :=
  Text.unlines
    [s!"usage: {commandName} [-h] [--debug] [--max-call-depth N] [--print-ast] [script]",
      "",
      "Runs a Lox script, or prompts for lines to run if there is none.",
      "",
      "  -h, --help          show this text and exit",
      "  --debug             log tokens and statements to standard error",
      "  --max-call-depth N  fail with a runtime error past N nested calls",
      "  --print-ast         print the statements of the script instead of running it"]

def logLine (part message : String) : String :=
  s!"{commandName}.{part}: {message}"

/-- What the log says about reading a program. -/
def compilationLog (c : Compilation) : List String :=
  let entry := logLine "session"
  [entry s!"scanned {c.scan.all.length} tokens"] ++
    c.scan.all.map (fun t => entry s!"  {t.listing}") ++
    [entry s!"parsed {c.statements.length} statements"] ++
    c.statements.map (fun stmt => entry s!"  {stmt.render}") ++
    if c.resolved then [entry s!"resolved {c.references.length} local references"] else []

/-- What the log says about the end of a run. -/
def reportLog : Report → List String
  | .failed error => [logLine "interpreter" s!"runtime error: {error.report}"]
  | _ => []

/-- The lines that are there before a program runs: the log, if there is one. -/
def linesBefore (options : Options) (code : String) : List String :=
  if options.debug then compilationLog (compile code 0) else []

/-- The lines that a run ends with: the log, if there is one, and the report. -/
def linesAfter (options : Options) (report : Report) : List String :=
  (if options.debug then reportLog report else []) ++ report.lines

/-- The exit status of a run. -/
def status : Report → Nat
  | .finished => exitOk
  | .rejected _ => exitStaticError
  | .failed _ => exitRuntimeError

def runScript (fuel : Nat) (options : Options) (path code : String) (s : Session) : Outcome :=
  let started := if options.debug then [logLine "cli" s!"running {path}"] else []
  let lines := started ++ linesBefore options code
  match Session.run fuel code s with
  | .ok report s =>
    .exited (status report) s.written (Text.unlines (lines ++ linesAfter options report))
  | .error cause s => .failed (.interrupted cause) s.written (Text.unlines lines)

/-- Shows the trees of a script. -/
def showScript (options : Options) (code : String) : Outcome :=
  let program := compile code 0
  let log := linesBefore options code
  if program.problems.isEmpty then
    .exited exitOk (Text.unlines (program.statements.map Stmt.render)) (Text.unlines log)
  else
    .exited exitStaticError "" (Text.unlines (log ++ program.problems.map Diagnostic.text))

def promptText : String := "> "

/--
Prompts for a line and runs it, over and over, until the input is used up.  There are at most `n`
lines left; `lines` went to standard error so far.
-/
def prompt (fuel : Nat) (options : Options) : Nat → Session → List String → Outcome
  | 0, s, lines => .exited exitOk ((s.write promptText).write "\n").written (Text.unlines lines)
  | n + 1, s, lines =>
    match (s.write promptText).takeLine with
    | ([], s) => .exited exitOk (s.write "\n").written (Text.unlines lines)
    | (line, s) =>
      let code := String.ofList line
      let lines := lines ++ linesBefore options code
      match Session.run fuel code s with
      | .ok report s => prompt fuel options n s (lines ++ linesAfter options report)
      | .error cause s => .failed (.interrupted cause) s.written (Text.unlines lines)

/-- Reads a script and shows or runs it. -/
def processScript (fuel : Nat) (options : Options) (read : String → Except ReadError ByteArray)
    (path : String) (s : Session) : Outcome :=
  if path.toList.contains '\x00' then .failed .nulInPath "" ""
  else
    match read path with
    | .error e => .exited exitNoInput "" (Text.unlines [s!"Could not read {path}: {e.message}"])
    | .ok bytes =>
      match Text.ofFile? bytes with
      | none => .failed .undecodable "" ""
      | some code =>
        if options.printTree then showScript options code
        else runScript fuel options path code s

/-- Carries out what the options say, on a machine with a limit of its own on nested calls. -/
def start (fuel : Nat) (machine : Option Nat) (readings : Nat → Float) (options : Options)
    (read : String → Except ReadError ByteArray) (input : List Char) : Outcome :=
  let s := Session.start ⟨options.maxCallDepth, machine⟩ input readings
  match options.script with
  | some path => processScript fuel options read path s
  | none => prompt fuel options input.length s []

/-- The command as a whole. -/
def run (fuel : Nat) (machine : Option Nat) (readings : Nat → Float) (words : List String)
    (read : String → Except ReadError ByteArray) (input : List Char) : Outcome :=
  match parse words with
  | .error e => .misused s!"{commandName}: error: {e.message}"
  | .ok .help => .helped
  | .ok (.start options) => start fuel machine readings options read input

end Lox.CommandLine
