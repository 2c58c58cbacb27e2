import Lox.CommandLine

/-!
The command in the outside world: it reads what `CommandLine.run` takes and writes what it gives.
-/

namespace Lox.CommandLine

def readError : IO.Error → ReadError
  | .noFileOrDirectory .. => .missing
  | .inappropriateType .. => .isDirectory
  | e => .system (toString e)

/-- What reading the script of a command gives, if it names one. -/
def readScript (words : List String) : IO (Except ReadError ByteArray) := do
  match parse words with
  | .ok (.start ⟨some path, _, _, _⟩) =>
    try
      return .ok (← IO.FS.readBinFile path)
    catch e =>
      return .error (readError e)
  | _ => return .error .missing

/-- Everything that is left of a stream. -/
partial def readAll (stream : IO.FS.Stream) (text : String) : IO String := do
  let line ← stream.getLine
  if line.isEmpty then return text else readAll stream (text ++ line)

/-- The deepest nesting of calls that is sure to fit the stack. -/
def machineDepth : Nat := 1500

def finish (status : Nat) (stdout stderr : String) : IO UInt32 := do
  (← IO.getStdout).putStr stdout
  (← IO.getStderr).putStr stderr
  return status.toUInt32

end Lox.CommandLine

open Lox Lox.CommandLine in
def main (words : List String) : IO UInt32 := do
  let script ← readScript words
  let input ← readAll (← IO.getStdin) ""
  let now := (← IO.monoMsNow).toFloat / 1000
  match run Session.ampleFuel (some machineDepth) (fun _ => now) words (fun _ => script)
      input.toList with
  | .exited status stdout stderr => finish status stdout stderr
  | .misused message => finish exitMisused "" (Text.unlines [message])
  | .helped => finish exitOk helpText ""
  | .failed failure stdout stderr =>
    finish exitFailed stdout (stderr ++ Text.unlines [s!"{commandName}: {failure.message}"])
