import Lox.Proofs.Input.Taking

/-!
# The calls of readLine

The evaluations that an evaluation calls come one after the other.  `Task.calls` lists them in order,
each with the session in which it begins.  Among those that they call in turn are the calls of
`readLine`.  Each of these takes the next line of the input, and nothing else takes anything: what is
taken in the course of an evaluation are the lines of these calls, one after the other.
-/

namespace Lox

theorem mem_followed {α β : Type} {r : EStateM.Result Interrupt Session α}
    {next : α → Session → List β} {b : β} :
    b ∈ followed r next ↔ ∃ a s, r = .ok a s ∧ b ∈ next a s := by
  cases r with
  | ok a s =>
      refine ⟨fun h => ⟨a, s, rfl, h⟩, ?_⟩
      rintro ⟨_, _, hr, h⟩
      cases hr
      exact h
  | error i s => exact ⟨fun h => (nomatch h), fun ⟨_, _, hr, _⟩ => nomatch hr⟩

instance (s : Session) : Decidable s.HasRoom :=
  inferInstanceAs (Decidable (_ ∧ _))

/-! ## The order of evaluations -/

/-- The evaluation that a step starts with, if there is any. -/
def Step.starts (s : Session) : Step → List (Task × Session)
  | .run code | .execute code =>
    if (compile code s.nextNode).problems = [] then
      [(.execAll Session.globals (compile code s.nextNode).statements, s.ready code)]
    else []
  | .evaluate code =>
    match (compileExpression code s.nextNode).tree with
    | .ok e =>
      [(.eval Session.globals e, { s with nextNode := (compileExpression code s.nextNode).nextId })]
    | .error _ => []
  | .call (.wrapper f) arguments =>
    followed (Eval.hostArguments f arguments s) fun vs s₁ => [(.invoke Eval.hostSite f vs, s₁)]
  | _ => []

/-- The evaluations that an evaluation with `n + 1` steps calls. -/
@[simp]
def Task.calls (n : Nat) (s : Session) : Task → List (Task × Session)
  | .eval env e =>
    match e with
    | .grouping _ inner => [(.eval env inner, s)]
    | .unary _ _ right => [(.eval env right, s)]
    | .binary _ left _ right =>
      (.eval env left, s) :: followed (Eval.eval n env left s) fun _ s₁ => [(.eval env right, s₁)]
    | .logical _ left op right =>
      (.eval env left, s) :: followed (Eval.eval n env left s) fun v s₁ =>
        if v.isTruthy = decide (op.kind = .kwOr) then [] else [(.eval env right, s₁)]
    | .assign _ _ value => [(.eval env value, s)]
    | .call _ callee paren arguments =>
      (.eval env callee, s) :: followed (Eval.eval n env callee s) fun f s₁ =>
        (.evalAll env arguments, s₁) :: followed (Eval.evalAll n env arguments s₁) fun vs s₂ =>
          if f.arity? = some vs.length then [(.invoke paren f vs, s₂)] else []
    | .get _ object _ => [(.eval env object, s)]
    | .set _ object _ value =>
      (.eval env object, s) :: followed (Eval.eval n env object s) fun v s₁ =>
        match v with
        | .object _ _ => [(.eval env value, s₁)]
        | _ => []
    | _ => []
  | .evalAll _ [] => []
  | .evalAll env (e :: es) =>
    (.eval env e, s) :: followed (Eval.eval n env e s) fun _ s₁ => [(.evalAll env es, s₁)]
  | .exec env stmt =>
    match stmt with
    | .expression value => [(.eval env value, s)]
    | .print value => [(.eval env value, s)]
    | .var _ (some value) => [(.eval env value, s)]
    | .block body => followed (Eval.enter env s) fun inner s₁ => [(.execAll inner body, s₁)]
    | .cond condition yes no =>
      (.eval env condition, s) :: followed (Eval.eval n env condition s) fun v s₁ =>
        if v.isTruthy then [(.exec env yes, s₁)]
        else
          match no with
          | none => []
          | some no => [(.exec env no, s₁)]
    | .loop condition body =>
      (.eval env condition, s) :: followed (Eval.eval n env condition s) fun v s₁ =>
        if v.isTruthy then
          (.exec env body, s₁) :: followed (Eval.exec n env body s₁) fun completion s₂ =>
            match completion with
            | .normal => [(.exec env (.loop condition body), s₂)]
            | .returned _ => []
        else []
    | .ret _ (some value) => [(.eval env value, s)]
    | _ => []
  | .execAll _ [] => []
  | .execAll env (stmt :: body) =>
    (.exec env stmt, s) :: followed (Eval.exec n env stmt s) fun completion s₁ =>
      match completion with
      | .normal => [(.execAll env body, s₁)]
      | .returned _ => []
  | .invoke _ callee arguments =>
    match callee with
    | .native id _ =>
      match s.natives[id]? with
      | some (.host body) => [(.perform (body (arguments.map .ofValue)), s)]
      | _ => []
    | .closure f =>
      if s.HasRoom then
        followed (Eval.open f arguments s.deeper) fun env s₁ => [(.execAll env f.decl.body, s₁)]
      else []
    | .classObject cls =>
      if s.HasRoom then
        match cls.initializer? with
        | some method =>
          followed (Eval.openInitializer cls method arguments s.deeper) fun env s₁ =>
            [(.execAll env method.decl.body, s₁)]
        | none => []
      else []
    | _ => []
  | .perform action =>
    match action with
    | .ask step next =>
      step.starts s ++
        followed (Eval.attempt (step.take n) s) fun r s₁ => [(.perform (next r), s₁)]
    | .recollect next => [(.perform (next s.memory), s)]
    | .keep things next => [(.perform next, { s with memory := things })]
    | _ => []

section

variable {n : Nat} {s s' : Session} {task' : Task} {env : Environment}

theorem Step.mem_starts {step : Step} : (task', s') ∈ step.starts s ↔ Starts step s task' s' := by
  constructor
  · intro h
    cases step with
    | run code | execute code =>
        simp only [Step.starts] at h
        split at h
        · next hnone =>
            cases List.mem_singleton.mp h
            first | exact .run hnone | exact .execute hnone
        · cases h
    | evaluate code =>
        simp only [Step.starts] at h
        split at h
        · next htree => cases List.mem_singleton.mp h; exact .evaluate htree
        · cases h
    | call callee arguments =>
        cases callee with
        | plain v => cases h
        | wrapper f =>
            obtain ⟨vs, s₁, hvs, h⟩ := mem_followed.mp h
            cases List.mem_singleton.mp h
            exact .call hvs
    | _ => cases h
  · intro h
    cases h with
    | run hnone | execute hnone => simp [Step.starts, hnone]
    | evaluate htree => simp [Step.starts, htree]
    | call hvs => simp [Step.starts, followed, hvs]

theorem mem_calls_eval {e : Expr} :
    (task', s') ∈ Task.calls n s (.eval env e) ↔ Calls n (.eval env e) s task' s' := by
  constructor
  · intro h
    cases e <;> simp only [Task.calls, List.mem_cons, mem_followed, List.not_mem_nil, or_false] at h
    case grouping => cases h; exact .grouping
    case unary => cases h; exact .unary
    case binary =>
      rcases h with h | ⟨v, s₁, hv, h⟩
      · cases h; exact .binaryLeft
      · cases h; exact .binaryRight hv
    case logical =>
      rcases h with h | ⟨v, s₁, hv, h⟩
      · cases h; exact .logicalLeft
      · split at h
        · cases h
        · next hgoes => cases List.mem_singleton.mp h; exact .logicalRight hv hgoes
    case assign => cases h; exact .assigned
    case call =>
      rcases h with h | ⟨f, s₁, hf, h | ⟨vs, s₂, hvs, h⟩⟩
      · cases h; exact .callee
      · cases h; exact .arguments hf
      · split at h
        · next harity => cases List.mem_singleton.mp h; exact .call hf hvs harity
        · cases h
    case get => cases h; exact .getObject
    case set =>
      rcases h with h | ⟨v, s₁, hv, h⟩
      · cases h; exact .setObject
      · split at h
        · cases List.mem_singleton.mp h; exact .setValue hv
        · cases h
  · intro h
    cases h with
    | logicalRight hv hgoes => simp [Task.calls, followed, hv, hgoes]
    | call hf hvs harity => simp [Task.calls, followed, hf, hvs, harity]
    | binaryRight hv => simp [Task.calls, followed, hv]
    | arguments hf => simp [Task.calls, followed, hf]
    | setValue hv => simp [Task.calls, followed, hv]
    | _ => simp [Task.calls]

theorem mem_calls_evalAll {es : List Expr} :
    (task', s') ∈ Task.calls n s (.evalAll env es) ↔ Calls n (.evalAll env es) s task' s' := by
  constructor
  · intro h
    cases es with
    | nil => cases h
    | cons e es =>
        simp only [Task.calls, List.mem_cons, mem_followed, List.not_mem_nil, or_false] at h
        rcases h with h | ⟨v, s₁, hv, h⟩
        · cases h; exact .firstArgument
        · cases h; exact .moreArguments hv
  · intro h
    cases h with
    | firstArgument => simp [Task.calls]
    | moreArguments hv => simp [Task.calls, followed, hv]

theorem mem_calls_exec {stmt : Stmt} :
    (task', s') ∈ Task.calls n s (.exec env stmt) ↔ Calls n (.exec env stmt) s task' s' := by
  constructor
  · intro h
    cases stmt with
    | expression value => cases List.mem_singleton.mp h; exact .expression
    | print value => cases List.mem_singleton.mp h; exact .print
    | var name initial =>
        cases initial with
        | none => cases h
        | some value => cases List.mem_singleton.mp h; exact .initial
    | block body =>
        simp only [Task.calls, mem_followed] at h
        obtain ⟨inner, s₁, hinner, h⟩ := h
        cases List.mem_singleton.mp h
        exact .block hinner
    | cond condition yes no =>
        simp only [Task.calls, List.mem_cons, mem_followed] at h
        rcases h with h | ⟨v, s₁, hv, h⟩
        · cases h; exact .condition
        · split at h
          · next htrue => cases List.mem_singleton.mp h; exact .yes hv htrue
          · next hfalse =>
              cases no with
              | none => cases h
              | some no =>
                  cases List.mem_singleton.mp h
                  exact .no hv (Bool.eq_false_iff.mpr hfalse)
    | loop condition body =>
        simp only [Task.calls, List.mem_cons, mem_followed] at h
        rcases h with h | ⟨v, s₁, hv, h⟩
        · cases h; exact .loopCondition
        · split at h
          · next htrue =>
              simp only [List.mem_cons, mem_followed] at h
              rcases h with h | ⟨completion, s₂, hround, h⟩
              · cases h; exact .loopBody hv htrue
              · cases completion with
                | normal => cases List.mem_singleton.mp h; exact .loopAgain hv htrue hround
                | returned _ => cases h
          · cases h
    | ret keyword value =>
        cases value with
        | none => cases h
        | some value => cases List.mem_singleton.mp h; exact .returned
    | _ => cases h
  · intro h
    cases h with
    | block hinner => simp [Task.calls, followed, hinner]
    | yes hv htrue => simp [Task.calls, followed, hv, htrue]
    | no hv hfalse => simp [Task.calls, followed, hv, hfalse]
    | loopBody hv htrue => simp [Task.calls, followed, hv, htrue]
    | loopAgain hv htrue hround => simp [Task.calls, followed, hv, htrue, hround]
    | _ => simp [Task.calls]

theorem mem_calls_execAll {body : List Stmt} :
    (task', s') ∈ Task.calls n s (.execAll env body) ↔ Calls n (.execAll env body) s task' s' := by
  constructor
  · intro h
    cases body with
    | nil => cases h
    | cons stmt body =>
        simp only [Task.calls, List.mem_cons, mem_followed] at h
        rcases h with h | ⟨completion, s₁, hdone, h⟩
        · cases h; exact .firstStmt
        · cases completion with
          | normal => cases List.mem_singleton.mp h; exact .moreStmts hdone
          | returned _ => cases h
  · intro h
    cases h with
    | firstStmt => simp [Task.calls]
    | moreStmts hdone => simp [Task.calls, followed, hdone]

theorem mem_calls_invoke {site : Token} {callee : Value} {vs : List Value} :
    (task', s') ∈ Task.calls n s (.invoke site callee vs) ↔
      Calls n (.invoke site callee vs) s task' s' := by
  constructor
  · intro h
    cases callee with
    | native id arity =>
        simp only [Task.calls] at h
        split at h
        · next hnative => cases List.mem_singleton.mp h; exact .native hnative
        · cases h
    | closure f =>
        simp only [Task.calls] at h
        split at h
        · next hroom =>
            obtain ⟨env, s₁, hopen, h⟩ := mem_followed.mp h
            cases List.mem_singleton.mp h
            exact .function hroom hopen
        · cases h
    | classObject cls =>
        simp only [Task.calls] at h
        split at h
        · next hroom =>
            split at h
            · next hmethod =>
                obtain ⟨env, s₁, hopen, h⟩ := mem_followed.mp h
                cases List.mem_singleton.mp h
                exact .initializer hroom hmethod hopen
            · cases h
        · cases h
    | _ => cases h
  · intro h
    cases h with
    | native hnative => simp [Task.calls, hnative]
    | function hroom hopen => simp [Task.calls, followed, hroom, hopen]
    | initializer hroom hmethod hopen => simp [Task.calls, followed, hroom, hmethod, hopen]

theorem mem_calls_perform {action : HostAction} :
    (task', s') ∈ Task.calls n s (.perform action) ↔ Calls n (.perform action) s task' s' := by
  constructor
  · intro h
    cases action with
    | ask step next =>
        rcases List.mem_append.mp h with h | h
        · exact .asked (Step.mem_starts.mp h)
        · obtain ⟨r, s₁, hr, h⟩ := mem_followed.mp h
          cases List.mem_singleton.mp h
          exact .answered hr
    | recollect next => cases List.mem_singleton.mp h; exact .recalled
    | keep things next => cases List.mem_singleton.mp h; exact .kept
    | _ => cases h
  · intro h
    cases h with
    | asked hstarts => exact List.mem_append_left _ (Step.mem_starts.mpr hstarts)
    | answered hr => simp [Task.calls, followed, hr]
    | recalled => simp [Task.calls]
    | kept => simp [Task.calls]

theorem mem_calls {task : Task} : (task', s') ∈ task.calls n s ↔ Calls n task s task' s' := by
  cases task with
  | eval env e => exact mem_calls_eval
  | evalAll env es => exact mem_calls_evalAll
  | exec env stmt => exact mem_calls_exec
  | execAll env body => exact mem_calls_execAll
  | invoke site callee vs => exact mem_calls_invoke
  | perform action => exact mem_calls_perform

end

/-! ## The calls of readLine -/

/-- The session, if this is a call of `readLine`. -/
def Task.lineCall (s : Session) : Task → List Session
  | .invoke _ (.native id _) _ =>
    match s.natives[id]? with
    | some .readLine => [s]
    | _ => []
  | _ => []

/-- The sessions in which `readLine` is called in the course of an evaluation, in order. -/
def Task.lineCalls : Nat → Session → Task → List Session
  | 0, _, _ => []
  | n + 1, s, task => task.lineCall s ++ (task.calls n s).flatMap fun call => call.1.lineCalls n call.2

/-- The lines that these calls take.  At the end of the input there is nothing to take. -/
def Task.taken (n : Nat) (s : Session) (task : Task) : List (List Char) :=
  (task.lineCalls n s).map Session.nextLine

def Task.takenInside (n : Nat) (s : Session) (task : Task) : List (List Char) :=
  (task.calls n s).flatMap fun call => call.1.taken n call.2

theorem Task.taken_succ (n : Nat) (s : Session) (task : Task) :
    task.taken (n + 1) s = (task.lineCall s).map Session.nextLine ++ task.takenInside n s := by
  unfold Task.taken Task.takenInside Task.lineCalls
  rw [List.map_append, List.map_flatMap]
  rfl

namespace Eval

/-- In evaluations that nest at most `n` steps, nothing is taken but by calls of `readLine`. -/
structure AllTake (n : Nat) : Prop where
  eval : ∀ env e s, Takes (eval n env e) s (Task.taken n s (.eval env e))
  evalAll : ∀ env es s, Takes (evalAll n env es) s (Task.taken n s (.evalAll env es))
  exec : ∀ env stmt s, Takes (exec n env stmt) s (Task.taken n s (.exec env stmt))
  execAll : ∀ env body s, Takes (execAll n env body) s (Task.taken n s (.execAll env body))
  invoke : ∀ site f vs s, Takes (invoke n site f vs) s (Task.taken n s (.invoke site f vs))
  perform : ∀ action s, Takes (perform n action) s (Task.taken n s (.perform action))

theorem Takes.checkCall {α : Type} {site : Token} {f : Value} {count : Nat} {x : Eval α}
    {s : Session} {lines : List (List Char)} (h : f.arity? = some count → Takes x s lines)
    (hnone : f.arity? ≠ some count → lines = []) :
    Takes (do checkCall site f count; x) s lines := by
  by_cases harity : f.arity? = some count
  · rw [checkCall_eq_pure harity]
    exact h harity
  · rcases checkCall_cases site f count with ⟨h, -⟩ | ⟨e, hcheck⟩
    · exact absurd h harity
    · have hquiet : Quiet (do fault site e; x) := ⟨fun _ => rfl⟩
      rw [hcheck, hnone harity]
      exact of_quiet

namespace AllTake

variable {n : Nat}

theorem eval_succ (h : AllTake n) (env : Environment) (e : Expr) (s : Session) :
    Takes (Eval.eval (n + 1) env e) s (Task.takenInside n s (.eval env e)) := by
  unfold Task.takenInside
  cases e with
  | grouping _ inner =>
      simp only [Task.calls, List.flatMap_singleton, Eval.eval]
      exact h.eval env inner s
  | unary _ op right =>
      simp only [Task.calls, List.flatMap_singleton, Eval.eval]
      exact (h.eval env right s).bind_quiet fun _ => inferInstance
  | binary _ left op right =>
      simp only [Task.calls, List.flatMap_cons, flatMap_followed, List.flatMap_nil, List.append_nil,
        Eval.eval]
      exact (h.eval env left s).bind fun {_ s₁} _ =>
        (h.eval env right s₁).bind_quiet fun _ => inferInstance
  | logical _ left op right =>
      simp only [Task.calls, List.flatMap_cons, flatMap_followed, Eval.eval]
      refine (h.eval env left s).bind fun {v s₁} _ => ?_
      split
      · exact .of_quiet
      · rw [List.flatMap_singleton]
        exact h.eval env right s₁
  | assign id name value =>
      simp only [Task.calls, List.flatMap_singleton, Eval.eval]
      exact (h.eval env value s).bind_quiet fun _ => inferInstance
  | call _ callee paren arguments =>
      simp only [Task.calls, List.flatMap_cons, flatMap_followed, Eval.eval]
      refine (h.eval env callee s).bind fun {f s₁} _ => ?_
      refine (h.evalAll env arguments s₁).bind fun {vs s₂} _ => ?_
      refine .checkCall (fun harity => ?_) fun harity => ?_
      · rw [if_pos harity, List.flatMap_singleton]
        exact h.invoke paren f vs s₂
      · rw [if_neg harity]
        rfl
  | get _ object name =>
      simp only [Task.calls, List.flatMap_singleton, Eval.eval]
      refine (h.eval env object s).bind_quiet fun v => ?_
      split <;> infer_instance
  | set _ object name value =>
      simp only [Task.calls, List.flatMap_cons, flatMap_followed, Eval.eval]
      refine (h.eval env object s).bind fun {v s₁} _ => ?_
      cases v with
      | object id cls =>
          rw [List.flatMap_singleton]
          exact (h.eval env value s₁).bind_quiet fun _ => inferInstance
      | _ => exact .of_quiet
  | _ =>
      simp only [Task.calls, List.flatMap_nil, Eval.eval]
      exact .of_quiet

theorem evalAll_succ (h : AllTake n) (env : Environment) (es : List Expr) (s : Session) :
    Takes (Eval.evalAll (n + 1) env es) s (Task.takenInside n s (.evalAll env es)) := by
  unfold Task.takenInside
  cases es with
  | nil =>
      simp only [Task.calls, List.flatMap_nil, Eval.evalAll]
      exact .of_quiet
  | cons e es =>
      simp only [Task.calls, List.flatMap_cons, flatMap_followed, List.flatMap_nil, List.append_nil,
        Eval.evalAll]
      exact (h.eval env e s).bind fun {_ s₁} _ =>
        (h.evalAll env es s₁).bind_quiet fun _ => inferInstance

theorem exec_succ (h : AllTake n) (env : Environment) (stmt : Stmt) (s : Session) :
    Takes (Eval.exec (n + 1) env stmt) s (Task.takenInside n s (.exec env stmt)) := by
  unfold Task.takenInside
  cases stmt with
  | expression value =>
      simp only [Task.calls, List.flatMap_singleton, Eval.exec]
      exact (h.eval env value s).bind_quiet fun _ => inferInstance
  | print value =>
      simp only [Task.calls, List.flatMap_singleton, Eval.exec]
      exact (h.eval env value s).bind_quiet fun _ => inferInstance
  | var name initial =>
      cases initial with
      | none =>
          simp only [Task.calls, List.flatMap_nil, Eval.exec]
          exact .of_quiet
      | some value =>
          simp only [Task.calls, List.flatMap_singleton, Eval.exec]
          exact (h.eval env value s).bind_quiet fun _ => inferInstance
  | block body =>
      simp only [Task.calls, flatMap_followed, List.flatMap_singleton, Eval.exec]
      exact .quiet_bind fun {inner s₁} _ => h.execAll inner body s₁
  | cond condition yes no =>
      simp only [Task.calls, List.flatMap_cons, flatMap_followed, Eval.exec]
      refine (h.eval env condition s).bind fun {v s₁} _ => ?_
      split
      · rw [List.flatMap_singleton]
        exact h.exec env yes s₁
      · cases no with
        | none => exact .of_quiet
        | some no =>
            rw [List.flatMap_singleton]
            exact h.exec env no s₁
  | loop condition body =>
      simp only [Task.calls, List.flatMap_cons, flatMap_followed, Eval.exec]
      refine (h.eval env condition s).bind fun {v s₁} _ => ?_
      split
      · simp only [List.flatMap_cons, flatMap_followed]
        refine (h.exec env body s₁).bind fun {completion s₂} _ => ?_
        cases completion with
        | normal =>
            rw [List.flatMap_singleton]
            exact h.exec env (.loop condition body) s₂
        | returned _ => exact .of_quiet
      · exact .of_quiet
  | ret keyword value =>
      cases value with
      | none =>
          simp only [Task.calls, List.flatMap_nil, Eval.exec]
          exact .of_quiet
      | some value =>
          simp only [Task.calls, List.flatMap_singleton, Eval.exec]
          exact (h.eval env value s).bind_quiet fun _ => inferInstance
  | _ =>
      simp only [Task.calls, List.flatMap_nil, Eval.exec]
      exact .of_quiet

theorem execAll_succ (h : AllTake n) (env : Environment) (body : List Stmt) (s : Session) :
    Takes (Eval.execAll (n + 1) env body) s (Task.takenInside n s (.execAll env body)) := by
  unfold Task.takenInside
  cases body with
  | nil =>
      simp only [Task.calls, List.flatMap_nil, Eval.execAll]
      exact .of_quiet
  | cons stmt body =>
      simp only [Task.calls, List.flatMap_cons, flatMap_followed, Eval.execAll]
      refine (h.exec env stmt s).bind fun {completion s₁} _ => ?_
      cases completion with
      | normal =>
          rw [List.flatMap_singleton]
          exact h.execAll env body s₁
      | returned _ => exact .of_quiet

theorem activate (h : AllTake n) (f : Closure) (vs : List Value) (s : Session) :
    Takes (Eval.activate (Eval.execAll n) f vs) s
      (followed (Eval.open f vs s) fun env s₁ => Task.taken n s₁ (.execAll env f.decl.body)) := by
  rw [activate_eq]
  refine .quiet_bind fun {env s₁} _ => (h.execAll env f.decl.body s₁).bind_quiet fun completion => ?_
  split <;> infer_instance

theorem instantiate (h : AllTake n) (cls : Class) (vs : List Value) (s : Session) :
    Takes (Eval.instantiate (Eval.execAll n) cls vs) s
      (match cls.initializer? with
        | some method => followed (openInitializer cls method vs s) fun env s₁ =>
            Task.taken n s₁ (.execAll env method.decl.body)
        | none => []) := by
  cases hmethod : cls.initializer? with
  | none =>
      unfold Eval.instantiate
      rw [hmethod]
      exact .of_quiet
  | some method =>
      obtain ⟨made, s₁, hnew⟩ : ∃ made s₁, newInstance cls s = .ok made s₁ :=
        ⟨_, _, newInstance_apply cls s⟩
      obtain ⟨f, s₂, hbind, hdecl, hinput⟩ : ∃ f s₂, bindThis method made s₁ = .ok f s₂ ∧
          f.decl = method.decl ∧ s₂.input = s.input := by
        refine ⟨_, _, bindThis_apply method made s₁, rfl, ?_⟩
        cases hnew
        rfl
      have hopen : openInitializer cls method vs s = Eval.open f vs s₂ := by
        unfold openInitializer
        rw [eval_bind_ok hnew, eval_bind_ok hbind]
      have hbody : Takes (do let _ ← Eval.activate (Eval.execAll n) f vs; return made) s₂ _ :=
        (h.activate f vs s₂).bind_quiet fun _ => inferInstance
      unfold Takes at hbody ⊢
      rw [instantiate_eq hmethod, leftBy_bind_ok hnew, leftBy_bind_ok hbind, ← hinput]
      simp only [hopen, ← hdecl]
      exact hbody

theorem invoke_succ (h : AllTake n) (site : Token) (callee : Value) (vs : List Value)
    (s : Session) :
    Takes (Eval.invoke (n + 1) site callee vs) s
      ((Task.lineCall s (.invoke site callee vs)).map Session.nextLine ++
        Task.takenInside n s (.invoke site callee vs)) := by
  unfold Task.takenInside
  cases callee with
  | native id arity =>
      unfold Takes
      simp only [Task.lineCall, Task.calls, Eval.invoke, eval_get_bind_apply]
      cases s.natives[id]? with
      | none => exact .nil
      | some native =>
          cases native with
          | clock => exact .nil
          | readLine => exact takes_readLine s
          | host body =>
              simp only [List.map_nil, List.nil_append, List.flatMap_singleton]
              exact h.perform _ s
  | closure f =>
      simp only [Task.lineCall, Task.calls, List.map_nil, List.nil_append, Eval.invoke]
      refine .nested (fun hroom => ?_) fun hroom => ?_
      · simp only [if_pos hroom, flatMap_followed, List.flatMap_singleton]
        exact h.activate f vs s.deeper
      · rw [if_neg hroom]
        rfl
  | classObject cls =>
      simp only [Task.lineCall, Task.calls, List.map_nil, List.nil_append, Eval.invoke]
      refine .nested (fun hroom => ?_) fun hroom => ?_
      · have hmade := h.instantiate cls vs s.deeper
        rw [if_pos hroom]
        cases hmethod : cls.initializer? with
        | none =>
            rw [hmethod] at hmade
            exact hmade
        | some method =>
            rw [hmethod] at hmade
            simp only [flatMap_followed, List.flatMap_singleton]
            exact hmade
      · rw [if_neg hroom]
        rfl
  | _ =>
      simp only [Task.lineCall, Task.calls, Eval.invoke]
      exact Takes.of_quiet

theorem runProgram (h : AllTake n) (text : String) (s : Session) :
    Takes (Eval.runProgram (Eval.execAll n) text) s
      (if (compile text s.nextNode).problems = [] then
        Task.taken n (s.ready text)
          (.execAll Session.globals (compile text s.nextNode).statements)
      else []) := by
  unfold Takes
  split
  · next hnone =>
      have hbody := h.execAll Session.globals (compile text s.nextNode).statements (s.ready text)
      unfold Takes at hbody
      rw [runProgram_accepted hnone, leftBy_bind]
      unfold catchFault
      generalize Eval.execAll n Session.globals (compile text s.nextNode).statements
        (s.ready text) = r at hbody ⊢
      cases r with
      | ok completion t => cases completion <;> exact hbody
      | error interrupt t => cases interrupt <;> exact hbody
  · next hsome =>
      rw [runProgram_rejected hsome]
      exact .nil

theorem take (h : AllTake n) (step : Step) (s : Session) :
    Takes (step.take n) s ((step.starts s).flatMap fun call => call.1.taken n call.2) := by
  have program : ∀ code, Takes (Eval.runProgram (Eval.execAll n) code) s
      (((Step.run code).starts s).flatMap fun call => call.1.taken n call.2) := by
    intro code
    have hrun := h.runProgram code s
    simp only [Step.starts]
    split
    · next hnone =>
        rw [if_pos hnone] at hrun
        rw [List.flatMap_singleton]
        exact hrun
    · next hsome =>
        rw [if_neg hsome] at hrun
        exact hrun
  cases step with
  | run code => exact (program code).map
  | runOther | get => exact Takes.map .of_quiet
  | set name object =>
      have hset : Quiet (setGlobal name object) := inferInstanceAs (Quiet (_ >>= _))
      exact Takes.map .of_quiet
  | execute code =>
      refine ((program code).bind_quiet fun report => ?_).map
      cases report with
      | finished => exact ⟨fun _ => rfl⟩
      | _ => infer_instance
  | evaluate code =>
      refine Takes.map ?_
      unfold Takes evaluateCode
      rw [eval_get_bind_apply, eval_modify_bind_apply]
      simp only [Step.starts]
      cases (compileExpression code s.nextNode).tree with
      | error problems => exact .nil
      | ok e =>
          have heval := (h.eval Session.globals e (s.numbering (compileExpression code s.nextNode).nextId)).map
            (g := fun v => (.ok (.ofValue v) : Except (List Diagnostic) HostForm))
          rw [List.flatMap_singleton]
          exact heval
  | call callee arguments =>
      cases callee with
      | plain v =>
          have hcall : Quiet (callForm (Eval.invoke n) arguments (.plain v)) :=
            inferInstanceAs (Quiet (hostError _))
          exact Takes.map .of_quiet
      | wrapper f =>
          refine Takes.map ?_
          simp only [Step.starts, flatMap_followed, List.flatMap_singleton]
          exact .quiet_bind fun {vs s₁} _ => (h.invoke hostSite f vs s₁).map

theorem perform_succ (h : AllTake n) (action : HostAction) (s : Session) :
    Takes (Eval.perform (n + 1) action) s (Task.takenInside n s (.perform action)) := by
  unfold Task.takenInside
  cases action with
  | give result =>
      simp only [Task.calls, List.flatMap_nil, Eval.perform]
      exact .of_quiet
  | raise error =>
      simp only [Task.calls, List.flatMap_nil, Eval.perform]
      exact .of_quiet
  | ask step next =>
      simp only [Task.calls, List.flatMap_append, flatMap_followed, List.flatMap_singleton]
      rw [perform_ask]
      exact (h.take step s).attempt.bind fun {r s₁} _ => h.perform (next r) s₁
  | recollect next =>
      simp only [Task.calls, List.flatMap_singleton, Eval.perform]
      exact h.perform (next s.memory) s
  | keep things next =>
      simp only [Task.calls, List.flatMap_singleton, Eval.perform]
      exact h.perform next { s with memory := things }

end AllTake

/-- In every evaluation, nothing is taken but by calls of `readLine`. -/
theorem allTake (n : Nat) : AllTake n := by
  induction n with
  | zero => constructor <;> intros <;> exact CutOff.nil
  | succ n ih =>
      constructor
      · intro env e s
        rw [Task.taken_succ]
        exact ih.eval_succ env e s
      · intro env es s
        rw [Task.taken_succ]
        exact ih.evalAll_succ env es s
      · intro env stmt s
        rw [Task.taken_succ]
        exact ih.exec_succ env stmt s
      · intro env body s
        rw [Task.taken_succ]
        exact ih.execAll_succ env body s
      · intro site f vs s
        rw [Task.taken_succ]
        exact ih.invoke_succ site f vs s
      · intro action s
        rw [Task.taken_succ]
        exact ih.perform_succ action s

end Eval

/-! ## Runs -/

/-- The sessions in which `readLine` is called in the course of a run, in order. -/
def Session.lineCalls (fuel : Nat) (code : String) (s : Session) : List Session :=
  if (compile code s.nextNode).problems = [] then
    Task.lineCalls fuel (s.ready code)
      (.execAll Session.globals (compile code s.nextNode).statements)
  else []

def Session.taken (fuel : Nat) (code : String) (s : Session) : List (List Char) :=
  (s.lineCalls fuel code).map Session.nextLine

/-- A run takes the lines of its calls of `readLine`, one after the other, and leaves the rest. -/
theorem Session.takes_run (fuel : Nat) (code : String) (s : Session) :
    Eval.Takes (Session.run fuel code) s (s.taken fuel code) := by
  have hrun := (Eval.allTake fuel).runProgram code s
  unfold Session.taken Session.lineCalls
  split
  · next hnone =>
      rw [if_pos hnone] at hrun
      exact hrun
  · next hsome =>
      rw [if_neg hsome] at hrun
      exact hrun

section

variable {step : Step} {fuel n : Nat} {code : String} {s s₁ s' : Session} {task : Task}

/-- A task that is a call of `readLine`. -/
def Task.ReadsLine (s : Session) (task : Task) : Prop :=
  ∃ site id arity arguments, task = .invoke site (.native id arity) arguments ∧
    s.natives[id]? = some .readLine

theorem Task.mem_lineCall : s' ∈ task.lineCall s ↔ s' = s ∧ task.ReadsLine s := by
  constructor
  · intro h
    unfold Task.lineCall at h
    split at h
    · split at h
      · next hnative => exact ⟨List.mem_singleton.mp h, _, _, _, _, rfl, hnative⟩
      · cases h
    · cases h
  · rintro ⟨rfl, site, id, arity, arguments, rfl, hnative⟩
    simp only [Task.lineCall, hnative, List.mem_singleton]

theorem Visits.of_mem_lineCalls (h : Visits step fuel s n task s₁) (hs' : s' ∈ task.lineCalls n s₁) :
    ∃ n task, Visits step fuel s (n + 1) task s' ∧ task.ReadsLine s' := by
  induction n generalizing task s₁ with
  | zero => cases hs'
  | succ n ih =>
      rcases List.mem_append.mp hs' with hown | hinner
      · obtain ⟨rfl, hreads⟩ := Task.mem_lineCall.mp hown
        exact ⟨n, task, h, hreads⟩
      · obtain ⟨⟨task', s₂⟩, hcall, hmem⟩ := List.mem_flatMap.mp hinner
        exact ih (h.calls (mem_calls.mp hcall)) hmem

theorem Visits.lineCalls_subset (h : Visits (.run code) fuel s n task s₁) :
    task.lineCalls n s₁ ⊆ s.lineCalls fuel code := by
  -- The calls of an evaluation are among those of the one that calls it, up to the whole run.
  induction h with
  | starts hstarts =>
      cases hstarts with
      | run hnone =>
          unfold Session.lineCalls
          rw [if_pos hnone]
          exact fun _ h => h
  | @calls n task s₁ task' s₂ _ hcalls ih =>
      intro s' hs'
      refine ih (List.mem_append_right _ ?_)
      exact List.mem_flatMap.mpr ⟨(task', s₂), mem_calls.mpr hcalls, hs'⟩

/-- These are all the calls of `readLine` in the course of a run. -/
theorem Session.mem_lineCalls : s' ∈ s.lineCalls fuel code ↔
    ∃ n task, Visits (.run code) fuel s (n + 1) task s' ∧ task.ReadsLine s' := by
  constructor
  · intro hs'
    unfold Session.lineCalls at hs'
    split at hs'
    · next hnone => exact Visits.of_mem_lineCalls (.starts (.run hnone)) hs'
    · cases hs'
  · rintro ⟨n, task, hvisits, hreads⟩
    exact hvisits.lineCalls_subset (List.mem_append_left _ (Task.mem_lineCall.mpr ⟨rfl, hreads⟩))

end

end Lox
