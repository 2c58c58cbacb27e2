/-!
How deep calls may nest.
-/

namespace Lox

/-- The limit that the user sets on nested calls. -/
inductive CallLimit where
  | unlimited
  | atMost (most : Int)
  /-- A limit that was named but left without a number.  No depth can be compared with it. -/
  | blank
  deriving DecidableEq, Repr

/-- Whether a depth of calls is beyond a limit. -/
def CallLimit.exceeded : CallLimit → Nat → Bool
  | .atMost most, depth => decide (most < (depth : Int))
  | _, _ => false

structure Limits where
  /-- The limit that the user sets. -/
  calls : CallLimit := .unlimited
  /-- The limit of the machine that runs the session. -/
  machine : Option Nat := none
  deriving DecidableEq, Repr

/-- Whether a depth of calls is beyond one of the limits. -/
def Limits.exceeded (limits : Limits) (depth : Nat) : Bool :=
  limits.calls.exceeded depth ||
    match limits.machine with
    | some most => decide (most < depth)
    | none => false

end Lox
