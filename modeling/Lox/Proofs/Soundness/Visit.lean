import Lox.Proofs.Preservation.Upheld
import Lox.Proofs.Soundness.Exact

/-!
# The evaluations of a run

A step of a session evaluates a program, an expression or a call, and each evaluation calls others.
`Calls n task s task' s'` says that the evaluation of `task` with `n + 1` steps in the session `s`
comes to the evaluation of `task'` with `n` steps, at a time when the session is `s'`.  A host function
may take steps of its own, and goes on with what they come to.  `Visits` collects all evaluations of a
step.
-/

namespace Lox

inductive Task where
  | eval (env : Environment) (e : Expr)
  | evalAll (env : Environment) (es : List Expr)
  | exec (env : Environment) (stmt : Stmt)
  | execAll (env : Environment) (body : List Stmt)
  | invoke (site : Token) (callee : Value) (arguments : List Value)
  | perform (action : HostAction)

def Eval.openInitializer (cls : Class) (method : Closure) (arguments : List Value) :
    Eval Environment := do
  let made ← newInstance cls
  Eval.open (← bindThis method made) arguments

theorem Eval.instantiate_eq {cls : Class} {method : Closure}
    (hmethod : cls.initializer? = some method)
    (run : Environment → List Stmt → Eval Completion) (arguments : List Value) :
    Eval.instantiate run cls arguments = (do
      let made ← newInstance cls
      let _ ← activate run (← bindThis method made) arguments
      return made) := by
  simp only [Eval.instantiate, hmethod]

theorem Eval.checkCall_eq_pure {site : Token} {callee : Value} {count : Nat}
    (h : callee.arity? = some count) : Eval.checkCall site callee count = pure () := by
  simp only [Eval.checkCall, h, if_true]

theorem Eval.checkCall_cases (site : Token) (callee : Value) (count : Nat) :
    (callee.arity? = some count ∧ Eval.checkCall site callee count = pure ()) ∨
      ∃ f, Eval.checkCall site callee count = Eval.fault site f := by
  unfold Eval.checkCall
  cases callee.arity? with
  | none => exact .inr ⟨_, rfl⟩
  | some arity =>
      by_cases hcount : count = arity
      · subst hcount
        exact .inl ⟨rfl, if_pos rfl⟩
      · exact .inr ⟨_, if_neg hcount⟩

/-- Whether the limits leave room for one more call. -/
def Session.HasRoom (s : Session) : Prop :=
  s.limits.calls ≠ .blank ∧ s.limits.exceeded (s.depth + 1) = false

theorem Eval.nested_of_room {α : Type} {s : Session} (h : s.HasRoom) (site : Token) (step : Eval α) :
    Eval.nested site step s =
      match step s.deeper with
      | .ok a t => .ok a t.shallower
      | .error i t => .error i t.shallower := by
  unfold Eval.nested
  rw [if_neg h.1, if_neg (Bool.eq_false_iff.mp h.2)]
  rfl

theorem Eval.nested_of_not_room {α : Type} {s : Session} (h : ¬ s.HasRoom) (site : Token)
    (step : Eval α) : ∃ i, Eval.nested site step s = .error i s := by
  unfold Eval.nested
  split
  · exact ⟨_, rfl⟩
  split
  · exact ⟨_, rfl⟩
  · next hblank hdeep => exact absurd ⟨hblank, Bool.eq_false_iff.mpr hdeep⟩ h

theorem Eval.perform_ask (n : Nat) (step : Step) (next : Except Raised Answer → HostAction) :
    Eval.perform (n + 1) (.ask step next) = (do
      let outcome ← attempt (step.take n)
      perform n (next outcome)) := by
  rw [perform]
  rfl

/-- The evaluation that a step of a session starts with. -/
inductive Starts : Step → Session → Task → Session → Prop where
  | run : (compile code s.nextNode).problems = [] →
      Starts (.run code) s (.execAll Session.globals (compile code s.nextNode).statements)
        (s.ready code)
  | execute : (compile code s.nextNode).problems = [] →
      Starts (.execute code) s (.execAll Session.globals (compile code s.nextNode).statements)
        (s.ready code)
  | evaluate : (compileExpression code s.nextNode).tree = .ok e →
      Starts (.evaluate code) s (.eval Session.globals e)
        { s with nextNode := (compileExpression code s.nextNode).nextId }
  | call : Eval.hostArguments f arguments s = .ok vs s₁ →
      Starts (.call (.wrapper f) arguments) s (.invoke Eval.hostSite f vs) s₁

inductive Calls (n : Nat) : Task → Session → Task → Session → Prop where
  -- Expressions
  | grouping : Calls n (.eval env (.grouping number e)) s (.eval env e) s
  | unary : Calls n (.eval env (.unary number op e)) s (.eval env e) s
  | binaryLeft : Calls n (.eval env (.binary number left op right)) s (.eval env left) s
  | binaryRight : Eval.eval n env left s = .ok v s₁ →
      Calls n (.eval env (.binary number left op right)) s (.eval env right) s₁
  | logicalLeft : Calls n (.eval env (.logical number left op right)) s (.eval env left) s
  | logicalRight : Eval.eval n env left s = .ok v s₁ → v.isTruthy ≠ decide (op.kind = .kwOr) →
      Calls n (.eval env (.logical number left op right)) s (.eval env right) s₁
  | assigned : Calls n (.eval env (.assign number name e)) s (.eval env e) s
  | callee : Calls n (.eval env (.call number e paren es)) s (.eval env e) s
  | arguments : Eval.eval n env e s = .ok f s₁ →
      Calls n (.eval env (.call number e paren es)) s (.evalAll env es) s₁
  | call : Eval.eval n env e s = .ok f s₁ → Eval.evalAll n env es s₁ = .ok vs s₂ →
      f.arity? = some vs.length →
      Calls n (.eval env (.call number e paren es)) s (.invoke paren f vs) s₂
  | getObject : Calls n (.eval env (.get number e name)) s (.eval env e) s
  | setObject : Calls n (.eval env (.set number e name value)) s (.eval env e) s
  | setValue : Eval.eval n env e s = .ok (.object i cls) s₁ →
      Calls n (.eval env (.set number e name value)) s (.eval env value) s₁
  | firstArgument : Calls n (.evalAll env (e :: es)) s (.eval env e) s
  | moreArguments : Eval.eval n env e s = .ok v s₁ →
      Calls n (.evalAll env (e :: es)) s (.evalAll env es) s₁
  -- Statements
  | expression : Calls n (.exec env (.expression e)) s (.eval env e) s
  | print : Calls n (.exec env (.print e)) s (.eval env e) s
  | initial : Calls n (.exec env (.var name (some e))) s (.eval env e) s
  | block {inner : Environment} : Eval.enter env s = .ok inner s₁ →
      Calls n (.exec env (.block ss)) s (.execAll inner ss) s₁
  | condition : Calls n (.exec env (.cond e yes no)) s (.eval env e) s
  | yes : Eval.eval n env e s = .ok v s₁ → v.isTruthy = true →
      Calls n (.exec env (.cond e yes no)) s (.exec env yes) s₁
  | no : Eval.eval n env e s = .ok v s₁ → v.isTruthy = false →
      Calls n (.exec env (.cond e yes (some no))) s (.exec env no) s₁
  | loopCondition : Calls n (.exec env (.loop e body)) s (.eval env e) s
  | loopBody : Eval.eval n env e s = .ok v s₁ → v.isTruthy = true →
      Calls n (.exec env (.loop e body)) s (.exec env body) s₁
  | loopAgain : Eval.eval n env e s = .ok v s₁ → v.isTruthy = true →
      Eval.exec n env body s₁ = .ok .normal s₂ →
      Calls n (.exec env (.loop e body)) s (.exec env (.loop e body)) s₂
  | returned : Calls n (.exec env (.ret keyword (some e))) s (.eval env e) s
  | firstStmt : Calls n (.execAll env (st :: ss)) s (.exec env st) s
  | moreStmts : Eval.exec n env st s = .ok .normal s₁ →
      Calls n (.execAll env (st :: ss)) s (.execAll env ss) s₁
  -- Calls
  | native : s.natives[i]? = some (.host body) →
      Calls n (.invoke site (.native i arity) vs) s (.perform (body (vs.map .ofValue))) s
  | function : s.HasRoom → Eval.open f vs s.deeper = .ok env s₁ →
      Calls n (.invoke site (.closure f) vs) s (.execAll env f.decl.body) s₁
  | initializer : s.HasRoom → cls.initializer? = some method →
      Eval.openInitializer cls method vs s.deeper = .ok env s₁ →
      Calls n (.invoke site (.classObject cls) vs) s (.execAll env method.decl.body) s₁
  -- Host functions
  | asked : Starts step s task s₁ → Calls n (.perform (.ask step next)) s task s₁
  | answered : Eval.attempt (step.take n) s = .ok r s₁ →
      Calls n (.perform (.ask step next)) s (.perform (next r)) s₁
  | recalled : Calls n (.perform (.recollect next)) s (.perform (next s.memory)) s
  | kept : Calls n (.perform (.keep fs action)) s (.perform action) { s with memory := fs }

/-- The evaluations of a step of a session, with the number of steps that each may nest. -/
inductive Visits (step : Step) (fuel : Nat) (s : Session) : Nat → Task → Session → Prop where
  | starts : Starts step s task s₁ → Visits step fuel s fuel task s₁
  | calls : Visits step fuel s (n + 1) task s₁ → Calls n task s₁ task' s₂ →
      Visits step fuel s n task' s₂

end Lox
