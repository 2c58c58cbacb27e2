import Lox.Proofs.HostCall.Hiding

/-!
# Evaluations that overlook variables

If no evaluation that a task comes to mentions any of some names, the task overlooks the global variables
of these names.
-/

namespace Lox

/-- The names that an evaluation itself looks up, changes or declares. -/
def Task.names : Task → List String
  | .eval _ (.read _ name) => [name.lexeme]
  | .eval _ (.assign _ name _) => [name.lexeme]
  | .eval _ (.self _ keyword) => [keyword.lexeme]
  | .exec _ (.var name _) => [name.lexeme]
  | .exec _ (.function decl) => [decl.name.lexeme]
  | .exec _ (.classDecl name base _) => name.lexeme :: (base.map fun entry => entry.2.lexeme).toList
  | .perform (.ask (.get name) _) => [name]
  | .perform (.ask (.set name _) _) => [name]
  | _ => []

/-- Neither the evaluation of a task nor any evaluation that it comes to mentions one of the names. -/
def Task.Spares (names : List String) : Nat → Task → Session → Prop
  | 0, _, _ => True
  | n + 1, task, s => (∀ name ∈ names, name ∉ task.names) ∧
      ∀ task' s', Calls n task s task' s' → Task.Spares names n task' s'

theorem Task.spares_of_visits {names : List String} {step : Step} {fuel n : Nat} {s t : Session}
    {task : Task}
    (hnames : ∀ {n task t}, Visits step fuel s n task t → ∀ name ∈ names, name ∉ task.names)
    (h : Visits step fuel s n task t) : task.Spares names n t := by
  induction n generalizing task t with
  | zero => trivial
  | succ n ih => exact ⟨hnames h, fun _ _ hcalls => ih (h.calls hcalls)⟩

namespace Eval

variable {names : List String} {n : Nat} {s : Session}

structure AllOverlook (names : List String) (n : Nat) : Prop where
  eval : ∀ {env e s}, Task.Spares names n (.eval env e) s → Overlooks names (eval n env e) s
  evalAll : ∀ {env es s}, Task.Spares names n (.evalAll env es) s →
    Overlooks names (evalAll n env es) s
  exec : ∀ {env stmt s}, Task.Spares names n (.exec env stmt) s →
    Overlooks names (exec n env stmt) s
  execAll : ∀ {env body s}, Task.Spares names n (.execAll env body) s →
    Overlooks names (execAll n env body) s
  invoke : ∀ {site callee arguments s}, Task.Spares names n (.invoke site callee arguments) s →
    Overlooks names (invoke n site callee arguments) s
  perform : ∀ {action s}, Task.Spares names n (.perform action) s →
    Overlooks names (perform n action) s

namespace AllOverlook

variable (ih : AllOverlook names n) (hthis : "this" ∉ names) (hsuper : "super" ∉ names)

theorem notMem {task : Task} (h : task.Spares names (n + 1) s) {name : String}
    (hname : name ∈ task.names) : name ∉ names :=
  fun hmem => h.1 name hmem hname

include ih hthis hsuper in
theorem eval_succ {env : Environment} {e : Expr} (h : Task.Spares names (n + 1) (.eval env e) s) :
    Overlooks names (Eval.eval (n + 1) env e) s := by
  obtain ⟨hnames, hcalls⟩ := id h
  unfold Eval.eval
  cases e with
  | literal _ value => exact .pure _
  | grouping _ inner => exact ih.eval (hcalls _ _ .grouping)
  | unary _ op right => exact (ih.eval (hcalls _ _ .unary)).bind fun _ _ _ => .operate _ _
  | binary _ left op right =>
      exact (ih.eval (hcalls _ _ .binaryLeft)).bind fun _ _ hleft =>
        (ih.eval (hcalls _ _ (.binaryRight hleft))).bind fun _ _ _ => .operate _ _
  | logical _ left op right =>
      refine (ih.eval (hcalls _ _ .logicalLeft)).bind fun _ _ hleft => ?_
      split
      · exact .pure _
      · next hright => exact ih.eval (hcalls _ _ (.logicalRight hleft hright))
  | read number name => exact .lookUp (notMem h List.mem_cons_self) _ _
  | assign number name value =>
      exact (ih.eval (hcalls _ _ .assigned)).bind fun _ _ _ =>
        (Overlooks.assign (notMem h List.mem_cons_self) _ _ _).bind fun _ _ _ => .pure _
  | call _ callee paren arguments =>
      refine (ih.eval (hcalls _ _ .callee)).bind fun f _ hf =>
        (ih.evalAll (hcalls _ _ (.arguments hf))).bind fun vs s₂ hvs => ?_
      rcases checkCall_cases paren f vs.length with ⟨harity, hcheck⟩ | ⟨fault, hcheck⟩
      · rw [hcheck, pure_bind]
        exact ih.invoke (hcalls _ _ (.call hf hvs harity))
      · rw [hcheck]
        exact fun _ ht => .error ht
  | get _ object name =>
      refine (ih.eval (hcalls _ _ .getObject)).bind fun v _ _ => ?_
      split
      · exact .property hthis _ _ _
      · exact .fault _ _
  | set _ object name value =>
      refine (ih.eval (hcalls _ _ .setObject)).bind fun v _ hv => ?_
      split
      · exact (ih.eval (hcalls _ _ (.setValue hv))).bind fun _ _ _ =>
          (Overlooks.setField _ _ _).bind fun _ _ _ => .pure _
      · exact .fault _ _
  | self number keyword => exact .lookUp (notMem h List.mem_cons_self) _ _
  | super number keyword method => exact .superMethod hthis hsuper _ _ _
  | missing => exact .stuck _
  | misplaced stmt => exact .stuck _

include ih in
theorem evalAll_succ {env : Environment} {es : List Expr}
    (h : Task.Spares names (n + 1) (.evalAll env es) s) : Overlooks names (Eval.evalAll (n + 1) env es) s := by
  obtain ⟨-, hcalls⟩ := h
  unfold Eval.evalAll
  cases es with
  | nil => exact .pure _
  | cons e es =>
      exact (ih.eval (hcalls _ _ .firstArgument)).bind fun _ _ hv =>
        (ih.evalAll (hcalls _ _ (.moreArguments hv))).bind fun _ _ _ => .pure _

include ih hsuper in
theorem exec_succ {env : Environment} {stmt : Stmt}
    (h : Task.Spares names (n + 1) (.exec env stmt) s) : Overlooks names (Eval.exec (n + 1) env stmt) s := by
  obtain ⟨-, hcalls⟩ := id h
  cases stmt with
  | expression value =>
      unfold Eval.exec
      exact (ih.eval (hcalls _ _ .expression)).bind fun _ _ _ => .pure _
  | print value =>
      unfold Eval.exec
      exact (ih.eval (hcalls _ _ .print)).bind fun _ _ _ => (Overlooks.printLine _).bind fun _ _ _ => .pure _
  | var name initial =>
      have hname := notMem h List.mem_cons_self
      cases initial with
      | none =>
          unfold Eval.exec
          exact (Overlooks.define (.inr hname) _).bind fun _ _ _ => .pure _
      | some value =>
          unfold Eval.exec
          exact (ih.eval (hcalls _ _ .initial)).bind fun _ _ _ =>
            (Overlooks.define (.inr hname) _).bind fun _ _ _ => .pure _
  | block body =>
      unfold Eval.exec
      exact (Overlooks.enter env).bind fun _ _ henter => ih.execAll (hcalls _ _ (.block henter))
  | cond condition yes no =>
      unfold Eval.exec
      refine (ih.eval (hcalls _ _ .condition)).bind fun v _ hv => ?_
      split
      · next htruthy => exact ih.exec (hcalls _ _ (.yes hv htruthy))
      · next hfalsy =>
          cases no with
          | none => exact .pure _
          | some no => exact ih.exec (hcalls _ _ (.no hv (Bool.not_eq_true _ ▸ hfalsy)))
  | loop condition body =>
      unfold Eval.exec
      refine (ih.eval (hcalls _ _ .loopCondition)).bind fun v _ hv => ?_
      split
      · next htruthy =>
          refine (ih.exec (hcalls _ _ (.loopBody hv htruthy))).bind fun completion _ hbody => ?_
          split
          · exact ih.exec (hcalls _ _ (.loopAgain hv htruthy hbody))
          · exact .pure _
      · exact .pure _
  | function decl =>
      unfold Eval.exec
      exact (Overlooks.newClosure _ _ _).bind fun _ _ _ =>
        (Overlooks.define (.inr (notMem h List.mem_cons_self)) _).bind fun _ _ _ => .pure _
  | ret keyword value =>
      cases value with
      | none =>
          unfold Eval.exec
          exact .pure _
      | some value =>
          unfold Eval.exec
          exact (ih.eval (hcalls _ _ .returned)).bind fun _ _ _ => .pure _
  | classDecl name base methods =>
      unfold Eval.exec
      have hbase : ∀ entry ∈ base, entry.2.lexeme ∉ names := by
        rintro entry hentry
        refine notMem h (List.mem_cons_of_mem _ ?_)
        rw [Option.mem_def.mp hentry]
        exact List.mem_cons_self
      exact (Overlooks.declareClass hsuper env (notMem h List.mem_cons_self) hbase methods).bind
        fun _ _ _ => .pure _
  | missing =>
      unfold Eval.exec
      exact .stuck _
  | misplaced expr =>
      unfold Eval.exec
      exact .stuck _

include ih in
theorem execAll_succ {env : Environment} {body : List Stmt}
    (h : Task.Spares names (n + 1) (.execAll env body) s) :
    Overlooks names (Eval.execAll (n + 1) env body) s := by
  obtain ⟨-, hcalls⟩ := h
  unfold Eval.execAll
  cases body with
  | nil => exact .pure _
  | cons stmt body =>
      refine (ih.exec (hcalls _ _ .firstStmt)).bind fun completion _ hstmt => ?_
      split
      · exact ih.execAll (hcalls _ _ (.moreStmts hstmt))
      · exact .pure _

include hthis in
theorem activate_of_body {run : Environment → List Stmt → Eval Completion} {f : Closure}
    {arguments : List Value}
    (h : ∀ env s₁, Eval.open f arguments s = .ok env s₁ → Overlooks names (run env f.decl.body) s₁) :
    Overlooks names (activate run f arguments) s := by
  rw [activate_eq]
  refine (Overlooks.openFrame f arguments).bind fun env s₁ hopen =>
    (h env s₁ hopen).bind fun completion _ _ => ?_
  split
  · exact .readAt hthis _ _
  · exact .pure _

include ih hthis in
theorem invoke_succ {site : Token} {callee : Value} {arguments : List Value}
    (h : Task.Spares names (n + 1) (.invoke site callee arguments) s) :
    Overlooks names (Eval.invoke (n + 1) site callee arguments) s := by
  obtain ⟨-, hcalls⟩ := h
  cases callee with
  | native id arity =>
      unfold Eval.invoke
      refine .get_bind ?_ ?_
      · split
        · exact .readClock
        · exact .readLine
        · next hbody => exact ih.perform (hcalls _ _ (.native hbody))
        · exact .stuck _
      · rintro t ⟨-, rfl⟩
        rfl
  | closure f =>
      unfold Eval.invoke
      exact .nested fun hroom => activate_of_body hthis fun env s₁ hopen =>
        ih.execAll (hcalls _ _ (.function hroom hopen))
  | classObject cls =>
      unfold Eval.invoke
      refine .nested fun hroom => ?_
      cases hmethod : cls.initializer? with
      | none =>
          simp only [instantiate, hmethod]
          exact (Overlooks.newInstance cls).bind fun _ _ _ => .pure _
      | some method =>
          rw [instantiate_eq hmethod]
          refine (Overlooks.newInstance cls).bind fun made s₁ hmade =>
            (Overlooks.bindThis hthis method made).bind fun bound s₂ hbound => ?_
          have hdecl : bound.decl = method.decl := by
            cases hbound
            rfl
          refine (activate_of_body hthis fun env s₃ hopen => ?_).bind fun _ _ _ => .pure _
          rw [hdecl]
          refine ih.execAll (hcalls _ _ (.initializer hroom hmethod ?_))
          unfold openInitializer
          rw [eval_bind_ok hmade, eval_bind_ok hbound, hopen]
  | _ =>
      unfold Eval.invoke
      exact .fault _ _

include ih in
/-- A step overlooks the variables if the evaluation that it starts with does. -/
theorem take {step : Step} (hstarts : ∀ {task s₁}, Starts step s task s₁ → task.Spares names n s₁)
    (hget : ∀ {name}, step = .get name → name ∉ names)
    (hset : ∀ {name object}, step = .set name object → name ∉ names) :
    Overlooks names (step.take n) s := by
  have program : ∀ {code}, ((compile code s.nextNode).problems = [] →
      Task.Spares names n (.execAll Session.globals (compile code s.nextNode).statements)
        (s.ready code)) → Overlooks names (Eval.runProgram (Eval.execAll n) code) s :=
    fun hprogram => .runProgram fun hnone => ih.execAll (hprogram hnone)
  cases step with
  | run code => exact (program fun hnone => hstarts (.run hnone)).map
  | runOther sort => exact (Overlooks.runOther sort).map
  | execute code => exact (program fun hnone => hstarts (.execute hnone)).executeProgram.map
  | evaluate code =>
      exact (Overlooks.evaluateCode fun e htree => ih.eval (hstarts (.evaluate htree))).map
  | get name => exact (Overlooks.getGlobal (hget rfl)).map
  | set name object => exact (Overlooks.setGlobal (hset rfl) object).map
  | call callee arguments =>
      cases callee with
      | plain v => exact (Overlooks.hostError _).map
      | wrapper f =>
          exact ((Overlooks.hostArguments f arguments).bind fun vs _ hvs =>
            (ih.invoke (hstarts (.call hvs))).map).map

include ih in
theorem perform_succ {action : HostAction} (h : Task.Spares names (n + 1) (.perform action) s) :
    Overlooks names (Eval.perform (n + 1) action) s := by
  obtain ⟨-, hcalls⟩ := id h
  cases action with
  | give result =>
      unfold Eval.perform
      exact .toValue _
  | raise error =>
      unfold Eval.perform
      exact .throw _
  | ask step next =>
      rw [perform_ask]
      have hstep : Overlooks names (step.take n) s := by
        refine ih.take (fun hstarts => hcalls _ _ (.asked hstarts)) ?_ ?_
        · rintro name rfl
          exact notMem h List.mem_cons_self
        · rintro name object rfl
          exact notMem h List.mem_cons_self
      exact hstep.attempt.bind fun r _ hr => ih.perform (hcalls _ _ (.answered hr))
  | recollect next =>
      unfold Eval.perform
      refine .get_bind (ih.perform (hcalls _ _ .recalled)) ?_
      rintro t ⟨-, rfl⟩
      rfl
  | keep things next =>
      unfold Eval.perform
      exact (Overlooks.keep things).bind fun _ s₁ hs₁ => by
        cases hs₁
        exact ih.perform (hcalls _ _ .kept)

end AllOverlook

/-- An evaluation that spares some names overlooks the global variables of these names. -/
theorem allOverlook (hthis : "this" ∉ names) (hsuper : "super" ∉ names) (n : Nat) :
    AllOverlook names n := by
  induction n with
  | zero =>
      constructor <;> intros <;>
        first
        | unfold Eval.eval; exact .throw _
        | unfold Eval.evalAll; exact .throw _
        | unfold Eval.exec; exact .throw _
        | unfold Eval.execAll; exact .throw _
        | unfold Eval.invoke; exact .throw _
        | unfold Eval.perform; exact .throw _
  | succ n ih =>
      exact ⟨ih.eval_succ hthis hsuper, ih.evalAll_succ, ih.exec_succ hsuper, ih.execAll_succ,
        ih.invoke_succ hthis, ih.perform_succ⟩

end Eval

end Lox
