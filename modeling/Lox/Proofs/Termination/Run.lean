import Lox.Proofs.Termination.Halting

/-!
# Runs of programs without loops

A new session knows no host functions, so with a limit on nested calls every program without loops
comes to an end in it: it finishes, or it fails with a runtime error.
-/

namespace Lox

/-- A report of a program that was run. -/
inductive Report.Ran : Report → Prop where
  | finished : Report.Ran .finished
  | failed : Report.Ran (.failed e)

theorem Session.bounded_start {limits : Limits} {most : Int} (h : limits.calls = .atMost most)
    (input : List Char) (readings : Nat → Float) :
    (Session.start limits input readings).Bounded most.toNat where
  limit := ⟨most, h, by
    change most ≤ ((0 : Nat) : Int) + most.toNat
    omega⟩
  hostless {i _} := by
    match i with
    | 0 | 1 => nofun
    | _ + 2 => nofun

section

variable {run : Environment → List Stmt → Eval Completion} {code : String} {s t : Session}
  (hnone : (compile code s.nextNode).problems = [])

include hnone

theorem Eval.runProgram_finishes
    (h : run Session.globals (compile code s.nextNode).statements (s.ready code) = .ok .normal t) :
    runProgram run code s = .ok .finished { t with hadRuntimeError := false } := by
  rw [runProgram_accepted hnone, eval_bind_apply, catchFault, h]
  rfl

theorem Eval.runProgram_fails {e : RuntimeError}
    (h : run Session.globals (compile code s.nextNode).statements (s.ready code) =
      .error (.fault e) t) :
    runProgram run code s = .ok (.failed e) { t with hadRuntimeError := true } := by
  rw [runProgram_accepted hnone, eval_bind_apply, catchFault, h]
  rfl

end

/-- A program without loops comes to an end in a session whose code has none either. -/
theorem Halting.run {room : Nat} {w : World} {s : Session} (hs : Halting room w s) {source : String}
    (hnone : (compile source s.nextNode).problems = [])
    (hfree : bodyLoopFree (compile source s.nextNode).statements = true) :
    ∃ fuel report s', Report.Ran report ∧
      ∀ fuel', fuel ≤ fuel' → Session.run fuel' source s = .ok report s' := by
  have hready : Session.Alike .loopFree (w.reset.accept (Code.ofProgram false hnone 0)) (s.ready source)
      (s.ready source) :=
    hs.alike.beginRun.acceptProgram_self hnone hfree
  have hsited : Sited (w.reset.accept (Code.ofProgram false hnone 0)) (Code.ofProgram false hnone 0) {} [] []
      Session.globals (.body (compile source s.nextNode).statements) :=
    .root (.inl rfl) hready.frames.globals hready.frames.free_globals
  have hbody : BodyAlike .loopFree (Code.ofProgram false hnone 0) [] _ _ :=
    Code.bodyAlike_self hnone fun _ _ => rfl
  have hbounded : (s.ready source).Bounded room := ⟨hs.bounded.limit, hs.bounded.hostless⟩
  obtain ⟨n, r, hends, -, hsame⟩ :=
    settles_execAll (callsSettle room) _ ⟨hready, hbounded⟩ hsited hbody
  have heval : EvaluatesAlike .loopFree True n n := evaluatesAlike_same n
  have hout := heval.execAll hsited hbody _ _ hready
  rw [show Eval.execAll n _ _ _ = r from hsame n (Nat.le_refl n)] at hout
  cases hout with
  | ok _ _ hend =>
      cases hend with
      | normal _ =>
          exact ⟨n, _, _, .finished, fun m hm => Eval.runProgram_finishes hnone (hsame m hm)⟩
      | returned hin _ => exact absurd rfl hin
  | fault _ _ _ _ =>
      exact ⟨n, _, _, .failed, fun m hm => Eval.runProgram_fails hnone (hsame m hm)⟩
  | host _ _ hstrict => exact absurd trivial hstrict
  | outOfFuel _ _ => exact absurd rfl (hends _)
  | slack hslack => exact absurd trivial hslack

/-- With a limit on nested calls, programs without loops terminate. -/
theorem Session.run_terminates {limits : Limits} {most : Int} (hlimit : limits.calls = .atMost most)
    {source : String} (hnone : (compile source 0).problems = [])
    (hfree : bodyLoopFree (compile source 0).statements = true) (input : List Char)
    (readings : Nat → Float) :
    ∃ fuel report s, Report.Ran report ∧ ∀ fuel', fuel ≤ fuel' →
      Session.run fuel' source (.start limits input readings) = .ok report s := by
  have hlimited : limits.calls ≠ .blank := by
    rw [hlimit]
    nofun
  have hstart : Halting most.toNat .start (.start limits input readings) :=
    ⟨alike_start fun _ => hlimited, bounded_start hlimit input readings⟩
  exact hstart.run hnone hfree

/-- A function and a method that call each other without end. -/
def chasing : String :=
  "fun even(n) \x7b return Odd(n).next(); \x7d
class Odd \x7b init(n) \x7b this.n = n; \x7d next() \x7b return even(this.n); \x7d \x7d
even(readLine());"

theorem Session.run_terminates_chasing :
    (compile chasing 0).problems = [] ∧ bodyLoopFree (compile chasing 0).statements = true ∧
      ∃ fuel report s, Report.Ran report ∧ ∀ fuel', fuel ≤ fuel' →
        Session.run fuel' chasing (.start { calls := .atMost 9 } "seven\n".toList fun _ => 0) =
          .ok report s := by
  have hread : (compile chasing 0).problems = [] ∧
      bodyLoopFree (compile chasing 0).statements = true := by
    set_option maxRecDepth 3000 in
    rw [show chasing = String.ofList _ from rfl]
    simp -zeta only [compile, Scan.ofSource_ofList]
    decide +kernel
  obtain ⟨hnone, hfree⟩ := hread
  exact ⟨hnone, hfree, run_terminates rfl hnone hfree _ _⟩

end Lox
