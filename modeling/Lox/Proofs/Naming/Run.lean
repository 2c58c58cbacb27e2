import Lox.Proofs.Depth.Count
import Lox.Proofs.Naming.Declaration
import Lox.Proofs.Naming.Unreported

/-!
# The value of an expression and of a variable declared with it

An expression can be evaluated for its value, or a program can declare a global variable with it and
the variable can be looked up.  Both give the same value or are interrupted in the same way, and leave
the same session behind: only the variable, the output and the flags are those of a run.
-/

namespace Lox

instance : Upheld .all Session.KeepsFrames where
  refl _ := Nat.le_refl _
  trans := Nat.le_trans
  store _ _ _ _ hsize := hsize
  exchange _ _ _ _ _ := Nat.le_refl _
  print _ _ := Nat.le_refl _
  call h := h
  number _ _ _ := Nat.le_refl _
  begin _ _ := Nat.le_refl _
  read _ _ _ := Nat.le_refl _
  flag _ _ _ _ := Nat.le_refl _

namespace Session

/-- Runs a program that gives a name to the value of an expression, and looks the name up. -/
def executeNamed (fuel : Nat) (name source : String) :
    Eval (Except (List Diagnostic) HostForm) := do
  match ← execute fuel (naming name source) with
  | .error problems => return .error problems
  | .ok _ => return .ok (← Eval.getGlobal name)

def binding (s : Session) (name : String) (v : Value) : Session :=
  { s with frames := s.frames.define globals name v }

/-- How an evaluation ends, and a run that gives a name to the value. -/
inductive NamedEnd (name : String) :
    EStateM.Result Interrupt Session (Except (List Diagnostic) HostForm) →
    EStateM.Result Interrupt Session (Except (List Diagnostic) HostForm) → Prop where
  | value : s'.beginRun = (s.binding name v).beginRun →
      NamedEnd name (.ok (.ok (.ofValue v)) s) (.ok (.ok (.ofValue v)) s')
  | interrupt : s'.beginRun = s.beginRun → NamedEnd name (.error i s) (.error i s')

variable {s : Session} {name source : String} {e : Expr}

theorem find?_binding (s : Session) (name : String) (v : Value) {frame : FrameId} {other : String}
    (h : frame ≠ globalFrame ∨ other ≠ name) :
    ((s.binding name v).frames.bindings frame).find? other =
      (s.frames.bindings frame).find? other := by
  unfold binding globals Frames.define
  rw [Frames.bindings_update]
  split
  · next hframe =>
      have hother : name ≠ other := fun heq => h.elim (fun hne => hne hframe.1.symm) fun hne => hne heq.symm
      rw [hframe.1]
      exact Bindings.find?_set_of_ne hother
  · rfl

theorem getGlobal_binding (hglobals : 0 < s.frames.frames.size) (name : String) (v : Value) :
    Eval.getGlobal name (s.binding name v) = .ok (.ofValue v) (s.binding name v) := by
  have hfound : (s.binding name v).frames.find? globals name = some v := by
    unfold binding globals Frames.define Frames.find?
    rw [Frames.bindings_update, if_pos ⟨rfl, hglobals⟩, Bindings.find?_set_self]
  unfold Eval.getGlobal
  rw [eval_get_bind_apply, hfound]
  rfl

theorem evaluate_eq (he : (compileExpression source s.nextNode).tree = .ok e) (fuel : Nat) :
    evaluate fuel source s = ((fun v => .ok (.ofValue v)) <$> Eval.eval fuel globals e)
      (s.numbering (compileExpression source s.nextNode).nextId) := by
  unfold evaluate Eval.evaluateCode
  rw [eval_get_bind_apply, eval_modify_bind_apply, he]
  rfl

/-- The run of the program that names the expression evaluates it in a run that has just begun. -/
theorem run_naming (hname : IsName name) (he : (compileExpression source s.nextNode).tree = .ok e)
    (fuel : Nat) :
    run (fuel + 2) (naming name source) s = (do
      let error ← Eval.catchFault (do
        let v ← Eval.eval fuel globals e
        Eval.define globals name v
        return .normal)
      Eval.conclude error : Eval Report)
        (s.numbering (compileExpression source s.nextNode).nextId).beginRun := by
  obtain ⟨hnone, hstatements, hreferences, hnextId⟩ := compile_naming hname he
  have hready : s.ready (naming name source) =
      (s.numbering (compileExpression source s.nextNode).nextId).beginRun := by
    unfold ready
    rw [hreferences, hnextId]
    rfl
  have hlexeme : (Scan.token 1 .name name.toList).lexeme = name := String.ofList_toList
  unfold run
  rw [Eval.runProgram_accepted hnone, hstatements, hready]
  simp only [Eval.execAll, Eval.exec, hlexeme, bind_assoc, pure_bind]

def text? : EStateM.Result Interrupt Session (Except (List Diagnostic) HostForm) → Option String
  | .ok (.ok (.plain (.string text))) _ => some text
  | _ => none

theorem text?_inv {r : EStateM.Result Interrupt Session (Except (List Diagnostic) HostForm)}
    {text : String} (h : text? r = some text) :
    ∃ s, r = .ok (.ok (.plain (.string text))) s := by
  unfold text? at h
  split at h
  · cases h
    exact ⟨_, rfl⟩
  · cases h

end Session

end Lox
