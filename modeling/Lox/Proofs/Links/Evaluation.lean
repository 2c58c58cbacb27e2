import Lox.Proofs.Links.Object

/-!
# Evaluation makes links and changes none

Every evaluation takes a session that is linked to one that is, with more links, however it ends.  What
it gives was made with these links.  What is left to do after a part of it does the same, wherever it
goes on from.
-/

namespace Lox

section

variable {L : Links} {env : Environment}

/-! ## Runs of programs -/

/-- A body that ended in a value that was made with these links, if in any. -/
def Completion.Linked (L : Links) (r : Completion) : Prop :=
  r.value.Linked L

/-- Ways to run bodies that only add links. -/
def RunBuilds (run : Environment → List Stmt → Eval Completion) : Prop :=
  ∀ {L env body}, Links.Chain L env → Builds Completion.Linked L (run env body)

theorem EndsLinked.catchFault {x : Eval Completion} {P : Links → Completion → Prop} {s : Session}
    (hx : EndsLinked P L (x s)) : EndsLinked (fun _ _ => True) L (Eval.catchFault x s) := by
  unfold Eval.catchFault
  split
  · next heq =>
      rw [heq] at hx
      exact ⟨hx.1, trivial⟩
  · next heq =>
      rw [heq] at hx
      exact hx.1
  · next heq =>
      rw [heq] at hx
      exact ⟨hx, trivial⟩
  · next heq =>
      rw [heq] at hx
      exact hx

theorem builds_conclude (error : Option RuntimeError) :
    Builds (fun _ _ => True) L (Eval.conclude error) := by
  have hflag : Builds (fun _ _ => True) L
      (modify fun s => { s with hadRuntimeError := error.isSome } : Eval Unit) :=
    .modify (fun hs => hs.congr rfl rfl rfl rfl rfl) trivial
  unfold Eval.conclude
  refine hflag.bind fun _ _ => ?_
  split <;> exact .pure trivial

theorem Session.Linked.ready {s : Session} (hs : s.Linked L) (code : String) :
    (s.ready code).Linked L :=
  hs.congr rfl rfl rfl rfl rfl

theorem Session.Linked.chain_globals {s : Session} (hs : s.Linked L) : L.Chain Session.globals :=
  .globals hs.wellFounded.globals

section

variable {run : Environment → List Stmt → Eval Completion}

theorem EndsLinked.runProgram {P : Links → Completion → Prop} {code : String} {s : Session}
    (hnone : (compile code s.nextNode).problems = [])
    (hx : EndsLinked P L
      (run Session.globals (compile code s.nextNode).statements (s.ready code))) :
    ∃ L', L ≤ L' ∧ EndsLinked (fun _ _ => True) L' (Eval.runProgram run code s) := by
  rw [Eval.runProgram_accepted hnone]
  exact hx.catchFault.bind fun _ => builds_conclude _

theorem builds_runProgram (hrun : RunBuilds run) (code : String) :
    Builds (fun _ _ => True) L (Eval.runProgram run code) := by
  intro s hs
  by_cases hnone : (compile code s.nextNode).problems = []
  · obtain ⟨L₁, hL₁, hend⟩ := hrun hs.chain_globals (s.ready code) (hs.ready code)
    obtain ⟨L₂, hL₂, hend⟩ := EndsLinked.runProgram hnone hend
    exact ⟨L₂, Links.le_trans hL₁ hL₂, hend⟩
  · rw [Eval.runProgram_rejected hnone]
    exact ⟨L, Links.le_refl L, hs.congr rfl rfl rfl rfl rfl, trivial⟩

end

theorem Session.Linked.action {s : Session} (hs : s.Linked L) {i : NativeId} {arity : Nat}
    {body : List HostForm → HostAction} {vs : List Value} (hi : s.natives[i]? = some (.host body))
    (hcallee : (Value.native i arity).Linked L) (hvs : ArgumentsLinked L (.native i arity) vs) :
    (body (vs.map .ofValue)).Linked L := by
  obtain ⟨expected, hexpected, hbody⟩ := hs.holds.hosts hi
  obtain rfl : arity = expected := Option.some.inj (hcallee.symm.trans hexpected)
  have hlength : (vs.map HostForm.ofValue).length = arity := by
    rw [List.length_map]
    exact (Option.some.inj hvs.1).symm
  exact hbody L (Links.le_refl L) _ hlength (.ofValues hvs.2)

/-! ## Steps, given how code is evaluated -/

def Answer.Linked (L : Links) (answer : Answer) : Prop :=
  ∀ v, answer.Gives v → v.Linked L

theorem Answer.Linked.related {answer : Answer} (h : answer.Linked L) :
    Answer.Related L.view answer answer := by
  cases answer with
  | report r => exact .report (Report.related_self (E := L.view.errors) (fun _ => rfl) r)
  | text t => exact .text
  | nothing => exact .nothing
  | form r =>
      cases r with
      | ok f => exact .form (HostForm.related_linked (h f.value rfl))
      | error problems => exact .refused

theorem attempted_linked {r : Except Raised Answer} (h : ∀ answer, r = .ok answer → answer.Linked L) :
    Attempted L.view.errors (Answer.Related L.view) r r := by
  cases r with
  | ok answer => exact .ok (h answer rfl).related
  | error raised =>
      cases raised with
      | fault e => exact .fault rfl
      | host e => exact .host

/-- What is left of a program that must not fail. -/
def Eval.executed : Report → Eval (Except (List Diagnostic) String)
  | .rejected problems => return .error problems
  | .failed error => throw (.fault error)
  | .finished => return .ok ("\n".intercalate (← get).output.toList)

theorem Eval.executeProgram_eq (run : Environment → List Stmt → Eval Completion) (code : String) :
    Eval.executeProgram run code = Eval.runProgram run code >>= Eval.executed := by
  unfold Eval.executeProgram
  congr

theorem builds_executed (report : Report) : Builds (fun _ _ => True) L (Eval.executed report) := by
  cases report with
  | rejected problems => exact .pure trivial
  | failed e => exact .throw _
  | finished => exact .get_bind fun _ => .pure trivial

/-- Ways of evaluating code that only add links. -/
structure ProceedsLinked (eval : Environment → Expr → Eval Value)
    (run : Environment → List Stmt → Eval Completion)
    (invoke : Token → Value → List Value → Eval Value) : Prop where
  eval : ∀ {L env e}, Links.Chain L env → Builds Value.Linked L (eval env e)
  run : RunBuilds run
  invoke : ∀ {L site callee vs}, Value.Linked L callee → ArgumentsLinked L callee vs →
    Builds Value.Linked L (invoke site callee vs)

section

variable {eval : Environment → Expr → Eval Value} {run : Environment → List Stmt → Eval Completion}
  {invoke : Token → Value → List Value → Eval Value}

theorem builds_evaluateCode (h : ProceedsLinked eval run invoke) (code : String) :
    Builds (fun L r => Answer.Linked L (.form r)) L (Eval.evaluateCode eval code) := by
  refine .get_bind fun {s} _ => ?_
  have hnumber : Builds (fun _ _ => True) L
      (modify fun t => { t with nextNode := (compileExpression code s.nextNode).nextId } : Eval Unit) :=
    .modify (fun hs => hs.congr rfl rfl rfl rfl rfl) trivial
  refine hnumber.bind fun {L₁ _} _ _ => ?_
  split
  · exact .pure nofun
  · refine .of_wellFounded fun hL => ?_
    refine (h.eval (.globals hL.globals)).map fun {_ v} _ hv => ?_
    rintro _ rfl
    rw [HostForm.value_ofValue]
    exact hv

theorem builds_called (h : ProceedsLinked eval run invoke) {f : Value} (hf : f.Linked L)
    {vs : List Value} (hvs : ArgumentsLinked L f vs) :
    Builds (fun L (form : HostForm) => form.value.Linked L) L
      (HostForm.ofValue <$> invoke Eval.hostSite f vs) := by
  refine (h.invoke hf hvs).map fun {_ v} _ hv => ?_
  rw [HostForm.value_ofValue]
  exact hv

theorem builds_callForm (h : ProceedsLinked eval run invoke) {f : HostForm} (hf : f.value.Linked L)
    {os : List HostObject} (hos : ObjectsLinked L os) :
    Builds (fun L form => form.value.Linked L) L (Eval.callForm invoke os f) := by
  cases f with
  | plain v => exact .throw _
  | wrapper f => exact (builds_hostArguments f hos).bind fun hL hvs => builds_called h (hf.mono hL) hvs

/-- A step only adds links, and what it gives was made with them. -/
theorem builds_take (h : ProceedsLinked eval run invoke) {step : Step} (hstep : step.Linked L) :
    Builds Answer.Linked L (Eval.take eval run invoke step) := by
  cases step with
  | run code => exact (builds_runProgram h.run code).map fun _ _ => nofun
  | runOther sort =>
      have hother : Builds (fun _ _ => True) L (Eval.runOther sort) :=
        builds_beginRun.bind fun _ _ => .throw _
      exact hother.map fun _ _ => nofun
  | execute code =>
      rw [Eval.take, Eval.executeProgram_eq]
      exact ((builds_runProgram h.run code).bind fun _ _ => builds_executed _).map fun _ _ => nofun
  | evaluate code => exact (builds_evaluateCode h code).map fun _ h => h
  | get name =>
      refine (builds_getGlobal name).map fun _ hv => ?_
      rintro _ rfl
      exact hv
  | set name o =>
      cases hstep with
      | set ho => exact (builds_setGlobal name ho).map fun _ _ => nofun
  | call f os =>
      cases hstep with
      | call hf hos =>
          refine (builds_callForm h hf.value.linked hos).map fun _ hv => ?_
          rintro _ rfl
          exact hv

end

/-! ## Evaluations of any depth -/

structure AllBuild (n : Nat) : Prop where
  eval : ∀ {L env e}, Links.Chain L env → Builds Value.Linked L (Eval.eval n env e)
  evalAll : ∀ {L env es}, Links.Chain L env →
    Builds ValuesLinked L (Eval.evalAll n env es)
  exec : ∀ {L env st}, Links.Chain L env →
    Builds Completion.Linked L (Eval.exec n env st)
  execAll : RunBuilds (Eval.execAll n)
  invoke : ∀ {L site callee vs}, Value.Linked L callee → ArgumentsLinked L callee vs →
    Builds Value.Linked L (Eval.invoke n site callee vs)
  perform : ∀ {L action}, HostAction.Linked L action →
    Builds Value.Linked L (Eval.perform n action)

namespace AllBuild

variable {n : Nat} {f v : Value} {vs : List Value}

/-! ### What is left of an expression -/

theorem afterLeft (h : AllBuild n) (henv : L.Chain env) (v : Value) (op : Token) (right : Expr) :
    Builds Value.Linked L (do
      let u ← Eval.eval n env right
      Eval.operate op (applyBinary op v u)) :=
  (h.eval henv).bind fun _ _ => builds_operate op fun _ => applyBinary_basic

theorem afterCondition (h : AllBuild n) (henv : L.Chain env) (hv : v.Linked L) (op : Token)
    (right : Expr) :
    Builds Value.Linked L
      (if v.isTruthy = decide (op.kind = .kwOr) then return v else Eval.eval n env right) := by
  split
  · exact .pure hv
  · exact h.eval henv

theorem afterAssigned (env : Environment) (id : NodeId) (name : Token) (hv : v.Linked L) :
    Builds Value.Linked L (do
      Eval.assign env id name v
      return v) :=
  (builds_assign env id name hv).bind fun hL _ => .pure (hv.mono hL)

theorem afterArguments (h : AllBuild n) (site : Token) (hf : f.Linked L)
    (hvs : ValuesLinked L vs) :
    Builds Value.Linked L (do
      Eval.checkCall site f vs.length
      Eval.invoke n site f vs) :=
  (builds_checkCall site f vs.length).bind fun hL harity =>
    h.invoke (hf.mono hL) ⟨harity, hvs.mono hL⟩

theorem afterCallee (h : AllBuild n) (henv : L.Chain env) (site : Token) (es : List Expr)
    (hf : f.Linked L) :
    Builds Value.Linked L (do
      let arguments ← Eval.evalAll n env es
      Eval.checkCall site f arguments.length
      Eval.invoke n site f arguments) :=
  (h.evalAll henv).bind fun hL hvs => h.afterArguments site (hf.mono hL) hvs

theorem afterGetObject (hv : v.Linked L) (name : Token) :
    Builds Value.Linked L (match (motive := Value → Eval Value) v with
      | .object id cls => Eval.property id cls name
      | _ => Eval.fault name .propertyOfNonInstance) := by
  cases v with
  | object i cls => exact builds_property i hv name
  | _ => exact .throw _

theorem afterSetValue (i : InstanceId) (name : Token) (hv : v.Linked L) :
    Builds Value.Linked L (do
      Eval.setField i name.lexeme v
      return v) :=
  (builds_setField i name.lexeme hv).bind fun hL _ => .pure (hv.mono hL)

theorem afterSetObject (h : AllBuild n) (henv : L.Chain env) (v : Value) (name : Token)
    (value : Expr) :
    Builds Value.Linked L (match v with
      | .object id _ => do
        let value ← Eval.eval n env value
        Eval.setField id name.lexeme value
        return value
      | _ => Eval.fault name .fieldOfNonInstance) := by
  split
  · next i _ => exact (h.eval henv).bind fun _ hv => afterSetValue i name hv
  · exact .throw _

theorem afterFirstArgument (h : AllBuild n) (henv : L.Chain env) (hv : v.Linked L)
    (es : List Expr) :
    Builds ValuesLinked L (do
      let values ← Eval.evalAll n env es
      return v :: values) :=
  (h.evalAll henv).bind fun hL hvs => .pure (.cons (hv.mono hL) hvs)

theorem eval_succ (h : AllBuild n) (henv : L.Chain env) (e : Expr) :
    Builds Value.Linked L (Eval.eval (n + 1) env e) := by
  cases e with
  | literal _ value => exact .pure (Value.linked_ofLiteral value)
  | grouping _ e => exact h.eval henv
  | unary _ op e => exact (h.eval henv).bind fun _ _ => builds_operate op fun _ => applyUnary_basic
  | binary _ left op right => exact (h.eval henv).bind fun hL _ => h.afterLeft (henv.mono hL) _ op right
  | logical _ left op right =>
      exact (h.eval henv).bind fun hL hv => h.afterCondition (henv.mono hL) hv op right
  | read id name => exact builds_lookUp env id name
  | assign id name e => exact (h.eval henv).bind fun _ hv => afterAssigned env id name hv
  | call _ e paren es => exact (h.eval henv).bind fun hL hf => h.afterCallee (henv.mono hL) paren es hf
  | get _ e name => exact (h.eval henv).bind fun _ hv => afterGetObject hv name
  | set _ e name value =>
      exact (h.eval henv).bind fun hL _ => h.afterSetObject (henv.mono hL) _ name value
  | self id keyword => exact builds_lookUp env id keyword
  | super id keyword method => exact builds_superMethod env id method
  | missing => exact .throw _
  | misplaced st => exact .throw _

theorem evalAll_succ (h : AllBuild n) (henv : L.Chain env) (es : List Expr) :
    Builds ValuesLinked L (Eval.evalAll (n + 1) env es) := by
  cases es with
  | nil => exact .pure .nil
  | cons e es => exact (h.eval henv).bind fun hL hv => h.afterFirstArgument (henv.mono hL) hv es

/-! ### What is left of a statement -/

theorem afterPrinted (v : Value) :
    Builds Completion.Linked L (do
      modify (Session.printLine v.display)
      return Completion.normal : Eval Completion) :=
  (builds_printLine v.display).bind fun _ _ => .pure trivial

theorem afterInitial (env : Environment) (name : Token) (hv : v.Linked L) :
    Builds Completion.Linked L (do
      Eval.define env name.lexeme v
      return Completion.normal) :=
  (builds_define env name.lexeme hv).bind fun _ _ => .pure trivial

theorem afterDecided (h : AllBuild n) (henv : L.Chain env) (v : Value) (yes : Stmt)
    (no : Option Stmt) :
    Builds Completion.Linked L
      (if v.isTruthy then Eval.exec n env yes
      else
        match no with
        | none => return .normal
        | some no => Eval.exec n env no) := by
  split
  · exact h.exec henv
  · split
    · exact .pure trivial
    · exact h.exec henv

theorem afterRound (h : AllBuild n) (henv : L.Chain env) (condition : Expr) (body : Stmt)
    {r : Completion} (hr : r.Linked L) :
    Builds Completion.Linked L (match (motive := Completion → Eval Completion) r with
      | .normal => Eval.exec n env (.loop condition body)
      | .returned value => return .returned value) := by
  cases r with
  | normal => exact h.exec henv
  | returned v => exact .pure hr

theorem afterTested (h : AllBuild n) (henv : L.Chain env) (v : Value) (condition : Expr)
    (body : Stmt) :
    Builds Completion.Linked L
      (if v.isTruthy then do
        match ← Eval.exec n env body with
        | .normal => Eval.exec n env (.loop condition body)
        | .returned value => return .returned value
      else return .normal) := by
  split
  · exact (h.exec henv).bind fun hL hr => h.afterRound (henv.mono hL) condition body hr
  · exact .pure trivial

theorem afterStmt (h : AllBuild n) (henv : L.Chain env) (ss : List Stmt) {r : Completion}
    (hr : r.Linked L) :
    Builds Completion.Linked L (match (motive := Completion → Eval Completion) r with
      | .normal => Eval.execAll n env ss
      | .returned value => return .returned value) := by
  cases r with
  | normal => exact h.execAll henv
  | returned v => exact .pure hr

theorem exec_succ (h : AllBuild n) (henv : L.Chain env) (st : Stmt) :
    Builds Completion.Linked L (Eval.exec (n + 1) env st) := by
  cases st with
  | expression e => exact (h.eval henv).bind fun _ _ => .pure trivial
  | print e => exact (h.eval henv).bind fun _ _ => afterPrinted _
  | var name initial =>
      cases initial with
      | none => exact afterInitial (v := .nil) env name trivial
      | some e => exact (h.eval henv).bind fun _ hv => afterInitial env name hv
  | block ss => exact (builds_enter henv).bind fun _ hinner => h.execAll hinner
  | cond condition yes no =>
      exact (h.eval henv).bind fun hL _ => h.afterDecided (henv.mono hL) _ yes no
  | loop condition body =>
      rw [Eval.exec]
      exact (h.eval henv).bind fun hL _ => h.afterTested (henv.mono hL) _ condition body
  | function decl =>
      refine (builds_newClosure henv .function decl).bind fun {L₁ f} _ hf => ?_
      exact afterInitial (v := .closure f) env decl.name hf
  | ret keyword value =>
      cases value with
      | none => exact .pure trivial
      | some e => exact (h.eval henv).bind fun _ hv => .pure hv
  | classDecl name base methods =>
      exact (builds_declareClass henv name base methods).bind fun _ _ => .pure trivial
  | missing => exact .throw _
  | misplaced e => exact .throw _

theorem execAll_succ (h : AllBuild n) : RunBuilds (Eval.execAll (n + 1)) := by
  intro L env ss henv
  cases ss with
  | nil => exact .pure trivial
  | cons st ss => exact (h.exec henv).bind fun hL hr => h.afterStmt (henv.mono hL) ss hr

/-! ### What is left of a call -/

theorem afterBody {g : Closure} {r : Completion} (hr : r.Linked L) :
    Builds Value.Linked L
      (if g.role = .initializer then Eval.readAt g.env 0 "this" else return r.value) := by
  split
  · exact builds_readAt _ _ _
  · exact .pure hr

theorem activate (h : AllBuild n) {g : Closure} (hg : g.Linked L) (hvs : ValuesLinked L vs) :
    Builds Value.Linked L (Eval.activate (Eval.execAll n) g vs) := by
  rw [Eval.activate_eq]
  refine (builds_open hg hvs).bind fun {L₁ inner} hL₁ hinner => ?_
  exact (h.execAll hinner).bind fun _ hr => afterBody hr

theorem instantiate (h : AllBuild n) {cls : Class} (hcls : cls.Linked L)
    (hvs : ValuesLinked L vs) :
    Builds Value.Linked L (Eval.instantiate (Eval.execAll n) cls vs) := by
  refine .of_wellFounded fun hL => ?_
  unfold Eval.instantiate
  refine (builds_newInstance hcls).bind fun {L₁ made} hL₁ hmade => ?_
  split
  · exact .pure hmade
  · next method hmethod =>
      have hlinked : method.Linked L₁ := (hcls.findMethod? hL hmethod).mono hL₁
      refine (builds_bindThis hlinked hmade).bind fun {L₂ f} hL₂ hf => ?_
      exact (h.activate hf ((hvs.mono hL₁).mono hL₂)).bind fun hL₃ _ => .pure ((hmade.mono hL₂).mono hL₃)

theorem invoke_succ (h : AllBuild n) {site : Token} (hf : f.Linked L)
    (hvs : ArgumentsLinked L f vs) :
    Builds Value.Linked L (Eval.invoke (n + 1) site f vs) := by
  cases f with
  | native i arity =>
      refine .get_bind fun {s} hs => ?_
      split
      · exact builds_readClock
      · exact builds_readLine
      · next body hi => exact h.perform (hs.action hi hf hvs)
      · exact .throw _
  | closure g => exact builds_nested site (h.activate hf hvs.2)
  | classObject cls => exact builds_nested site (h.instantiate hf hvs.2)
  | _ => exact .throw _

/-! ### What is left of an action of the host -/

theorem proceeds (h : AllBuild n) : ProceedsLinked (Eval.eval n) (Eval.execAll n) (Eval.invoke n) :=
  ⟨h.eval, h.execAll, h.invoke⟩

theorem perform_succ (h : AllBuild n) {action : HostAction} (haction : action.Linked L) :
    Builds Value.Linked L (Eval.perform (n + 1) action) := by
  cases haction with
  | give ho _ => exact builds_toValue ho
  | raise _ => exact .throw _
  | raiseHost _ => exact .throw _
  | ask _ hstep hnext =>
      refine (builds_take h.proceeds hstep).attempt.bind fun {L₁ r} hL₁ hr => h.perform ?_
      exact hnext _ (HostRules.view_linked L₁) (Links.view_mono hL₁) r r (attempted_linked hr)
        False.elim
  | recollect hnext =>
      refine .get_bind fun {s} hs => h.perform ?_
      exact hnext _ (HostRules.view_linked L) (View.le_refl _) _ _ hs.holds.memory.related
  | keep hfs haction =>
      exact (builds_keep (.of_related hfs)).bind fun hL _ =>
        h.perform (HostAction.Linked.mono hL haction)

end AllBuild

/-- However deep steps nest, evaluation only adds links. -/
theorem allBuild (n : Nat) : AllBuild n := by
  induction n with
  | zero =>
      constructor
      case execAll => exact fun {_ _ _} _ => .throw _
      all_goals intros; exact .throw _
  | succ n ih =>
      exact ⟨fun henv => ih.eval_succ henv _, fun henv => ih.evalAll_succ henv _,
        fun henv => ih.exec_succ henv _, ih.execAll_succ, fun hf hvs => ih.invoke_succ hf hvs,
        fun haction => ih.perform_succ haction⟩

end

end Lox
