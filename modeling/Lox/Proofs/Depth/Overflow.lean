import Lox.Proofs.Depth.Count

/-!
# Stack overflows

A call overflows the stack at its own place, and only if the calls that are going on leave no room for
it.  All other evaluations pass an overflow on.  Host functions are told of overflows and may raise them
again, or others if they are not held to what they were told of.
-/

namespace Lox

/-! ## Where overflows come from -/

namespace Overflows

open Eval

variable {α β : Type} {site : Token} {x : Eval α} {f : α → Eval β} {s : Session}

theorem bind (h : Overflows site ((x >>= f) s)) :
    Overflows site (x s) ∨ ∃ a s₁, x s = .ok a s₁ ∧ Overflows site (f a s₁) := by
  rw [eval_bind_apply] at h
  cases hx : x s with
  | ok a s₁ =>
      rw [hx] at h
      exact .inr ⟨a, s₁, rfl, h⟩
  | error i s₁ =>
      rw [hx] at h
      exact .inl h

theorem second [hx : Plain x] (h : Overflows site ((x >>= f) s)) :
    ∃ a s₁, x s = .ok a s₁ ∧ Overflows site (f a s₁) :=
  h.bind.resolve_left (hx.shallow site s)

theorem first [hf : ∀ a, Plain (f a)] (h : Overflows site ((x >>= f) s)) : Overflows site (x s) :=
  h.bind.resolve_right fun ⟨a, s₁, _, hrest⟩ => (hf a).shallow site s₁ hrest

theorem of_map {g : α → β} (h : Overflows site ((g <$> x) s)) : Overflows site (x s) := by
  rw [map_eq_pure_bind] at h
  exact h.first

theorem not_fault {t : Token} {g : Fault} (hg : g ≠ .stackOverflow) :
    ¬ Overflows site (fault t g s : EStateM.Result Interrupt Session α) :=
  (plain_fault t hg).shallow site s

/-- A call that overflows the stack is too deep itself, or has room and overflows it later. -/
theorem nested {place : Token} (h : Overflows site (Eval.nested place x s)) :
    (place = site ∧ s.limits.exceeded (s.depth + 1) = true) ∨
      (s.HasRoom ∧ Overflows site (x s.deeper)) := by
  by_cases hroom : s.HasRoom
  · rw [Eval.nested_of_room hroom] at h
    refine .inr ⟨hroom, ?_⟩
    generalize x s.deeper = r at h ⊢
    cases r <;> exact h
  · unfold Eval.nested at h
    split at h
    · cases h
    · next hblank =>
        split at h
        · next hdeep =>
            cases h
            exact .inl ⟨rfl, hdeep⟩
        · next hdeep => exact absurd ⟨hblank, Bool.eq_false_iff.mpr hdeep⟩ hroom

variable {run : Environment → List Stmt → Eval Completion}

theorem activate {g : Closure} {arguments : List Value}
    (h : Overflows site (Eval.activate run g arguments s)) :
    ∃ env s₁, Eval.open g arguments s = .ok env s₁ ∧ Overflows site (run env g.decl.body s₁) := by
  rw [activate_eq] at h
  obtain ⟨env, s₁, hopen, hbody⟩ := h.second
  have hend (completion : Completion) : Plain (if g.role = .initializer then
      readAt g.env 0 "this" else return completion.value) := by
    split <;> infer_instance
  exact ⟨env, s₁, hopen, hbody.first⟩

theorem instantiate {cls : Class} {arguments : List Value}
    (h : Overflows site (Eval.instantiate run cls arguments s)) :
    ∃ method env s₁, cls.initializer? = some method ∧
      openInitializer cls method arguments s = .ok env s₁ ∧
        Overflows site (run env method.decl.body s₁) := by
  cases hmethod : cls.initializer? with
  | none =>
      unfold Eval.instantiate at h
      rw [hmethod] at h
      obtain ⟨made, s₁, _, hdone⟩ := h.second
      cases hdone
  | some method =>
      rw [instantiate_eq hmethod] at h
      obtain ⟨made, s₁, hmade, hrest⟩ := h.second
      obtain ⟨bound, s₂, hbound, hactive⟩ := hrest.second
      obtain ⟨env, s₃, hopen, hbody⟩ := hactive.first.activate
      have hdecl : bound.decl = method.decl := by
        unfold bindThis newClosure at hbound
        cases hbound
        rfl
      refine ⟨method, env, s₃, rfl, ?_, hdecl ▸ hbody⟩
      unfold openInitializer
      rw [eval_bind_ok hmade, eval_bind_ok hbound, hopen]

theorem not_catchFault {step : Eval Completion} : ¬ Overflows site (catchFault step s) := by
  unfold catchFault
  cases step s with
  | ok completion t => cases completion <;> nofun
  | error i t => cases i <;> nofun

theorem not_runProgram {code : String} : ¬ Overflows site (runProgram run code s) := by
  intro h
  by_cases hnone : (compile code s.nextNode).problems = []
  · rw [runProgram_accepted hnone] at h
    exact not_catchFault h.first
  · rw [runProgram_rejected hnone] at h
    exact h

end Overflows

theorem Overflows.not_attempt {α : Type} {site : Token} {x : Eval α} {s : Session} :
    ¬ Overflows site (Eval.attempt x s) := by
  intro h
  cases hx : Eval.attempt x s with
  | ok r t =>
      rw [hx] at h
      exact h
  | error i t =>
      rw [hx] at h
      exact (Eval.attempt_error hx).2 (.fault _) h

/-- An evaluation that overflows the stack. -/
def Task.OverflowsAt (n : Nat) (site : Token) (s : Session) : Task → Prop
  | .eval env e => Overflows site (Eval.eval n env e s)
  | .evalAll env es => Overflows site (Eval.evalAll n env es s)
  | .exec env stmt => Overflows site (Eval.exec n env stmt s)
  | .execAll env body => Overflows site (Eval.execAll n env body s)
  | .invoke place callee arguments => Overflows site (Eval.invoke n place callee arguments s)
  | .perform action => Overflows site (Eval.perform n action s)

/-- A call of a function or class that the limits leave no room for. -/
def Task.TooDeep (site : Token) (s : Session) : Task → Prop
  | .invoke place callee _ =>
      place = site ∧ callee.isCounted = true ∧ s.limits.exceeded (s.depth + 1) = true
  | _ => False

/-- A host function that raises an overflow itself. -/
def Task.RaisesAt (site : Token) : Task → Prop
  | .perform action => action = .raise (.fault ⟨site, .stackOverflow⟩)
  | _ => False

/-- An evaluation hands an overflow on to this one. -/
def Task.PassesOn (n : Nat) (site : Token) (s : Session) (task : Task) : Prop :=
  ∃ task' s', Calls n task s task' s' ∧ task'.OverflowsAt n site s'

section

variable {n : Nat} {site : Token} {s : Session} {env : Environment}

theorem passesOn_eval {e : Expr} (h : Overflows site (Eval.eval (n + 1) env e s)) :
    Task.PassesOn n site s (.eval env e) := by
  unfold Eval.eval at h
  cases e with
  | grouping _ inner => exact ⟨_, s, .grouping, h⟩
  | unary _ op right => exact ⟨_, s, .unary, h.first⟩
  | binary _ left op right =>
      obtain hleft | ⟨v, s₁, hv, hright⟩ := h.bind
      · exact ⟨_, s, .binaryLeft, hleft⟩
      · exact ⟨_, s₁, .binaryRight hv, hright.first⟩
  | logical _ left op right =>
      obtain hleft | ⟨v, s₁, hv, hright⟩ := h.bind
      · exact ⟨_, s, .logicalLeft, hleft⟩
      · split at hright
        · cases hright
        · next hmore => exact ⟨_, s₁, .logicalRight hv hmore, hright⟩
  | assign number name value => exact ⟨_, s, .assigned, h.first⟩
  | call _ callee paren arguments =>
      obtain hcallee | ⟨f, s₁, hf, hrest⟩ := h.bind
      · exact ⟨_, s, .callee, hcallee⟩
      obtain hvalues | ⟨vs, s₂, hvs, hcall⟩ := hrest.bind
      · exact ⟨_, s₁, .arguments hf, hvalues⟩
      obtain ⟨_, s₃, hcheck, hinvoke⟩ := hcall.second
      obtain ⟨harity, hpure⟩ | ⟨fault, hfault⟩ := Eval.checkCall_cases paren f vs.length
      · rw [hpure] at hcheck
        cases hcheck
        exact ⟨_, s₂, .call hf hvs harity, hinvoke⟩
      · rw [hfault] at hcheck
        cases hcheck
  | get _ object name =>
      obtain hobject | ⟨v, s₁, hv, hrest⟩ := h.bind
      · exact ⟨_, s, .getObject, hobject⟩
      · split at hrest
        · exact absurd hrest (Eval.Plain.shallow site s₁)
        · exact absurd hrest (Overflows.not_fault nofun)
  | set _ object name value =>
      obtain hobject | ⟨v, s₁, hv, hrest⟩ := h.bind
      · exact ⟨_, s, .setObject, hobject⟩
      · split at hrest
        · exact ⟨_, s₁, .setValue hv, hrest.first⟩
        · exact absurd hrest (Overflows.not_fault nofun)
  | literal | read | self | super | missing | misplaced =>
      exact absurd h (Eval.Plain.shallow site s)

theorem passesOn_evalAll {es : List Expr} (h : Overflows site (Eval.evalAll (n + 1) env es s)) :
    Task.PassesOn n site s (.evalAll env es) := by
  cases es with
  | nil =>
      unfold Eval.evalAll at h
      cases h
  | cons e es =>
      unfold Eval.evalAll at h
      obtain hvalue | ⟨v, s₁, hv, hrest⟩ := h.bind
      · exact ⟨_, s, .firstArgument, hvalue⟩
      · exact ⟨_, s₁, .moreArguments hv, hrest.first⟩

theorem passesOn_exec {stmt : Stmt} (h : Overflows site (Eval.exec (n + 1) env stmt s)) :
    Task.PassesOn n site s (.exec env stmt) := by
  cases stmt with
  | expression value =>
      unfold Eval.exec at h
      exact ⟨_, s, .expression, h.first⟩
  | print value =>
      unfold Eval.exec at h
      exact ⟨_, s, .print, h.first⟩
  | var name initial =>
      cases initial with
      | none =>
          unfold Eval.exec at h
          exact absurd h (Eval.Plain.shallow site s)
      | some value =>
          unfold Eval.exec at h
          exact ⟨_, s, .initial, h.first⟩
  | block body =>
      unfold Eval.exec at h
      obtain ⟨inner, s₁, henter, hbody⟩ := h.second
      exact ⟨_, s₁, .block henter, hbody⟩
  | cond condition yes no =>
      unfold Eval.exec at h
      obtain hcondition | ⟨v, s₁, hv, hrest⟩ := h.bind
      · exact ⟨_, s, .condition, hcondition⟩
      split at hrest
      · next htrue => exact ⟨_, s₁, .yes hv htrue, hrest⟩
      · next hfalse =>
          cases no with
          | none => cases hrest
          | some no => exact ⟨_, s₁, .no hv (Bool.eq_false_iff.mpr hfalse), hrest⟩
  | loop condition body =>
      unfold Eval.exec at h
      obtain hcondition | ⟨v, s₁, hv, hrest⟩ := h.bind
      · exact ⟨_, s, .loopCondition, hcondition⟩
      split at hrest
      · next htrue =>
          obtain hbody | ⟨completion, s₂, hround, hagain⟩ := hrest.bind
          · exact ⟨_, s₁, .loopBody hv htrue, hbody⟩
          cases completion with
          | normal => exact ⟨_, s₂, .loopAgain hv htrue hround, hagain⟩
          | returned v => cases hagain
      · cases hrest
  | ret keyword value =>
      cases value with
      | none =>
          unfold Eval.exec at h
          cases h
      | some value =>
          unfold Eval.exec at h
          exact ⟨_, s, .returned, h.first⟩
  | function | classDecl | missing | misplaced =>
      unfold Eval.exec at h
      exact absurd h (Eval.Plain.shallow site s)

theorem passesOn_execAll {body : List Stmt} (h : Overflows site (Eval.execAll (n + 1) env body s)) :
    Task.PassesOn n site s (.execAll env body) := by
  cases body with
  | nil =>
      unfold Eval.execAll at h
      cases h
  | cons stmt body =>
      unfold Eval.execAll at h
      obtain hfirst | ⟨completion, s₁, hdone, hrest⟩ := h.bind
      · exact ⟨_, s, .firstStmt, hfirst⟩
      cases completion with
      | normal => exact ⟨_, s₁, .moreStmts hdone, hrest⟩
      | returned v => cases hrest

theorem tooDeep_or_passesOn_invoke {place : Token} {callee : Value} {arguments : List Value}
    (h : Overflows site (Eval.invoke (n + 1) place callee arguments s)) :
    Task.TooDeep site s (.invoke place callee arguments) ∨
      Task.PassesOn n site s (.invoke place callee arguments) := by
  cases callee with
  | native id arity =>
      unfold Eval.invoke at h
      dsimp only at h
      rw [eval_get_bind_apply] at h
      cases hnative : s.natives[id]? with
      | none =>
          rw [hnative] at h
          cases h
      | some native =>
          rw [hnative] at h
          cases native with
          | clock | readLine => exact absurd h (Eval.Plain.shallow site s)
          | host body => exact .inr ⟨_, s, .native hnative, h⟩
  | closure f =>
      unfold Eval.invoke at h
      obtain ⟨hplace, hdeep⟩ | ⟨hroom, hcall⟩ := h.nested
      · exact .inl ⟨hplace, rfl, hdeep⟩
      · obtain ⟨env, s₁, hopen, hbody⟩ := hcall.activate
        exact .inr ⟨_, s₁, .function hroom hopen, hbody⟩
  | classObject cls =>
      unfold Eval.invoke at h
      obtain ⟨hplace, hdeep⟩ | ⟨hroom, hcall⟩ := h.nested
      · exact .inl ⟨hplace, rfl, hdeep⟩
      · obtain ⟨method, env, s₁, hmethod, hopen, hbody⟩ := hcall.instantiate
        exact .inr ⟨_, s₁, .initializer hroom hmethod hopen, hbody⟩
  | nil | bool | number | string | object =>
      unfold Eval.invoke at h
      exact absurd h (Overflows.not_fault (by decide))

theorem raises_or_passesOn_perform {action : HostAction}
    (h : Overflows site (Eval.perform (n + 1) action s)) :
    Task.RaisesAt site (.perform action) ∨ Task.PassesOn n site s (.perform action) := by
  cases action with
  | give result =>
      unfold Eval.perform at h
      exact absurd h (Eval.Plain.shallow site s)
  | raise error =>
      cases error with
      | fault e =>
          cases h
          exact .inl rfl
      | host e => cases h
  | ask step next =>
      rw [Eval.perform_ask] at h
      obtain ⟨r, s₁, hanswer, hnext⟩ := h.bind.resolve_left Overflows.not_attempt
      exact .inr ⟨_, s₁, .answered hanswer, hnext⟩
  | recollect next => exact .inr ⟨_, s, .recalled, h⟩
  | keep things next => exact .inr ⟨_, _, .kept, h⟩

/-- An evaluation that overflows the stack is a call that is too deep, or hands the overflow on, or is a
host function that raises it. -/
theorem Task.OverflowsAt.step {task : Task} (h : task.OverflowsAt (n + 1) site s) :
    task.TooDeep site s ∨ task.RaisesAt site ∨ task.PassesOn n site s := by
  cases task with
  | eval env e => exact .inr (.inr (passesOn_eval h))
  | evalAll env es => exact .inr (.inr (passesOn_evalAll h))
  | exec env stmt => exact .inr (.inr (passesOn_exec h))
  | execAll env body => exact .inr (.inr (passesOn_execAll h))
  | invoke site callee arguments => exact (tooDeep_or_passesOn_invoke h).imp_right .inr
  | perform action => exact .inr (raises_or_passesOn_perform h)

theorem Task.TooDeep.overflows {callee : Value} {arguments : List Value}
    (h : Task.TooDeep site s (.invoke site callee arguments)) (hblank : s.limits.calls ≠ .blank) :
    Eval.invoke (n + 1) site callee arguments s = .error (.fault ⟨site, .stackOverflow⟩) s := by
  obtain ⟨-, hcounted, hdeep⟩ := h
  have hnested {α : Type} (x : Eval α) :
      Eval.nested site x s = .error (.fault ⟨site, .stackOverflow⟩) s := by
    unfold Eval.nested
    rw [if_neg hblank, if_pos hdeep]
  cases callee with
  | closure f =>
      unfold Eval.invoke
      exact hnested _
  | classObject cls =>
      unfold Eval.invoke
      exact hnested _
  | _ => cases hcounted

end

/-! ## Steps -/

section

variable {fuel : Nat} {site : Token} {s s' : Session}

theorem Eval.runProgram_failed {run : Environment → List Stmt → Eval Completion} {code : String}
    {e : RuntimeError} (h : Eval.runProgram run code s = .ok (.failed e) s') :
    (compile code s.nextNode).problems = [] ∧
      ∃ s₁, run Session.globals (compile code s.nextNode).statements (s.ready code) =
        .error (.fault e) s₁ := by
  by_cases hnone : (compile code s.nextNode).problems = []
  · obtain ⟨s₁, ⟨-, hreport, -⟩ | ⟨_, hrun, hreport, -⟩⟩ := Eval.runProgram_inv hnone h
    · cases hreport
    · cases hreport
      exact ⟨hnone, s₁, hrun⟩
  · rw [Eval.runProgram_rejected hnone] at h
    cases h

/-- The ends of a step that overflows the stack.  A run reports the overflow. -/
inductive OverflowAnswer (site : Token) : EStateM.Result Interrupt Session Answer → Prop where
  | reported : OverflowAnswer site (.ok (.report (.failed ⟨site, .stackOverflow⟩)) left)
  | interrupted : OverflowAnswer site (.error (.fault ⟨site, .stackOverflow⟩) left)

instance (site : Token) : DecidablePred (OverflowAnswer site)
  | .ok (.report (.failed e)) _ =>
      decidable_of_iff (e = ⟨site, .stackOverflow⟩) 
        ⟨fun h => h ▸ .reported, fun h => by cases h; rfl⟩
  | .error (.fault e) _ =>
      decidable_of_iff (e = ⟨site, .stackOverflow⟩)
        ⟨fun h => h ▸ .interrupted, fun h => by cases h; rfl⟩
  | .ok (.report .finished) _ | .ok (.report (.rejected _)) _ | .ok (.text _) _ | .ok (.form _) _
  | .ok .nothing _ | .error (.host _) _ | .error (.stuck _) _ | .error .outOfFuel _ => isFalse nofun

theorem OverflowAnswer.cases {α : Type} {x : Eval α} {g : α → Answer}
    (h : OverflowAnswer site ((g <$> x) s)) :
    Overflows site (x s) ∨ ∃ a s₁, x s = .ok a s₁ ∧ g a = .report (.failed ⟨site, .stackOverflow⟩) := by
  simp only [Functor.map, EStateM.map] at h
  cases hx : x s with
  | ok a s₁ =>
      rw [hx] at h
      refine .inr ⟨a, s₁, rfl, ?_⟩
      change OverflowAnswer site (.ok (g a) s₁) at h
      generalize g a = answer at h ⊢
      cases h
      rfl
  | error i s₁ =>
      rw [hx] at h
      cases h
      exact .inl rfl

theorem OverflowAnswer.starts {step : Step} (h : OverflowAnswer site (step.take fuel s)) :
    ∃ task s₁, Starts step s task s₁ ∧ task.OverflowsAt fuel site s₁ := by
  -- Only a run gives an answer that reports an overflow.
  have failed : ∀ {code s₁}, Session.run fuel code s = .ok (.failed ⟨site, .stackOverflow⟩) s₁ →
      (compile code s.nextNode).problems = [] ∧
        Task.OverflowsAt fuel site (s.ready code)
          (.execAll Session.globals (compile code s.nextNode).statements) := by
    intro code s₁ hrun
    obtain ⟨hnone, s₂, hfault⟩ := Eval.runProgram_failed hrun
    refine ⟨hnone, ?_⟩
    change Overflows site (Eval.execAll fuel _ _ _)
    rw [hfault]
    rfl
  cases step with
  | run code =>
      obtain hover | ⟨report, s₁, hrun, hreport⟩ := h.cases
      · exact absurd hover Overflows.not_runProgram
      · cases hreport
        obtain ⟨hnone, hover⟩ := failed hrun
        exact ⟨_, _, .run hnone, hover⟩
  | runOther sort => cases h
  | execute code =>
      obtain hover | ⟨_, _, _, hanswer⟩ := h.cases
      · unfold Eval.executeProgram at hover
        obtain ⟨report, s₁, hrun, hrest⟩ := hover.bind.resolve_left Overflows.not_runProgram
        cases report with
        | finished => cases hrest
        | rejected problems => cases hrest
        | failed e =>
            cases hrest
            obtain ⟨hnone, hover⟩ := failed hrun
            exact ⟨_, _, .execute hnone, hover⟩
      · cases hanswer
  | evaluate code =>
      obtain hover | ⟨_, _, _, hanswer⟩ := h.cases
      · unfold Eval.evaluateCode at hover
        rw [eval_get_bind_apply, eval_modify_bind_apply] at hover
        cases htree : (compileExpression code s.nextNode).tree with
        | error problems =>
            rw [htree] at hover
            cases hover
        | ok e =>
            rw [htree] at hover
            exact ⟨_, _, .evaluate htree, hover.of_map⟩
      · cases hanswer
  | get name =>
      obtain hover | ⟨_, _, _, hanswer⟩ := h.cases
      · cases hover
      · cases hanswer
  | set name object =>
      obtain hover | ⟨_, _, _, hanswer⟩ := h.cases
      · exact absurd hover (Eval.Plain.shallow site s)
      · cases hanswer
  | call callee arguments =>
      obtain hover | ⟨_, _, _, hanswer⟩ := h.cases
      · cases callee with
        | plain v => cases hover
        | wrapper f =>
            obtain ⟨vs, s₁, hvs, hinvoke⟩ := hover.second
            exact ⟨_, _, .call hvs, hinvoke.of_map⟩
      · cases hanswer

/-- A host function is told of an overflow by a step that overflows the stack. -/
theorem OverflowAnswer.of_tells {step : Step} {r : Except Raised Answer} {e : RuntimeError}
    (h : Eval.attempt (step.take fuel) s = .ok r s') (htells : Tells r e)
    (hover : e.fault = .stackOverflow) : OverflowAnswer e.token (step.take fuel s) := by
  obtain ⟨t, f⟩ := e
  obtain rfl : f = .stackOverflow := hover
  obtain ⟨answer, rfl, htake⟩ | ⟨raised, rfl, htake⟩ := Eval.attempt_inv h
  · rw [htake]
    unfold Tells at htells
    split at htells
    · cases ‹Except.ok _ = Except.error _›
    · next heq =>
        cases heq
        cases htells
        exact .reported
    · exact htells.elim
  · rw [htake]
    cases raised with
    | fault e =>
        cases htells
        exact .interrupted
    | host e => cases htells

end

/-! ## Where the overflows of a step come from -/

section

variable {step : Step} {fuel n : Nat} {waiting : List Task} {task : Task} {site : Token}
  {s s' : Session}

/-- Some call of a step, at a place, would bring the number of calls beyond a limit. -/
def Step.CallsBeyond (limit : CallLimit) (step : Step) (fuel : Nat) (s : Session)
    (site : Token) : Prop :=
  ∃ n waiting callee arguments s',
    Stacked step fuel s (n + 1) waiting (.invoke site callee arguments) s' ∧
      callee.isCounted = true ∧ limit.exceeded (activeCalls waiting + 1) = true

/-- A session in which nothing goes on, of which the user alone limits the calls. -/
structure Session.Idle (limit : CallLimit) (s : Session) : Prop where
  depth : s.depth = 0
  limits : s.limits = ⟨limit, none⟩

theorem Session.Idle.exceeded {limit : CallLimit} (hs : s.Idle limit)
    (h : Stacked step fuel s n waiting task s') (depth : Nat) :
    s'.limits.exceeded depth = limit.exceeded depth := by
  rw [h.depth_eq.2, hs.limits]
  exact Bool.or_false _

theorem Session.Idle.depth_eq {limit : CallLimit} (hs : s.Idle limit)
    (h : Stacked step fuel s n waiting task s') : s'.depth = activeCalls waiting := by
  rw [h.depth_eq.1, hs.depth, Nat.zero_add]

theorem Task.TooDeep.callsBeyond {limit : CallLimit} (hdeep : task.TooDeep site s')
    (hs : s.Idle limit) (h : Stacked step fuel s (n + 1) waiting task s') :
    step.CallsBeyond limit fuel s site := by
  cases task with
  | invoke place callee arguments =>
      obtain ⟨rfl, hcounted, hexceeded⟩ := hdeep
      rw [hs.exceeded h, hs.depth_eq h] at hexceeded
      exact ⟨n, waiting, callee, arguments, s', h, hcounted, hexceeded⟩
  | _ => exact hdeep.elim

/-- A host function of a step raises an overflow itself. -/
def Step.HostRaises (step : Step) (fuel : Nat) (s : Session) (site : Token) : Prop :=
  ∃ n waiting s', Stacked step fuel s n waiting (.perform (.raise (.fault ⟨site, .stackOverflow⟩))) s'

/-- Every overflow comes from a call beyond the limit, or from a host function. -/
theorem Stacked.callsBeyond_or_hostRaises {limit : CallLimit} (hs : s.Idle limit)
    (h : Stacked step fuel s n waiting task s') (hover : task.OverflowsAt n site s') :
    step.CallsBeyond limit fuel s site ∨ step.HostRaises fuel s site := by
  -- An overflow is handed on inwards, with one step less each time, down to where it comes from.
  induction n generalizing waiting task s' with
  | zero => cases task <;> cases hover
  | succ n ih =>
      obtain hdeep | hraises | ⟨task', s₁, hcalls, hlater⟩ := hover.step
      · exact .inl (hdeep.callsBeyond hs h)
      · cases task with
        | perform action =>
            obtain rfl : action = _ := hraises
            exact .inr ⟨_, _, _, h⟩
        | _ => exact hraises.elim
      · exact ih (.calls h hcalls) hlater

/-- An overflow, if it is one, comes from a call beyond the limit. -/
def Step.Explains (limit : CallLimit) (step : Step) (fuel : Nat) (s : Session) (e : RuntimeError) :
    Prop :=
  e.fault = .stackOverflow → step.CallsBeyond limit fuel s e.token

/-- Host functions that raise only overflows that they were told of. -/
def Step.Relays (limit : CallLimit) (step : Step) (fuel : Nat) (s : Session) (task : Task)
    (s' : Session) : Prop :=
  s'.HostsWithin .noInvention ∧ task.Within .noInvention (step.Explains limit fuel s)

theorem Starts.within {free : Liberties} {told : RuntimeError → Prop} (h : Starts step s task s') :
    task.Within free told := by
  cases h <;> trivial

/-- One evaluation hands on to another that host functions relay overflows, as those that they are told
of come from calls beyond the limit. -/
theorem Calls.relays {limit : CallLimit} {task' : Task} {s₁ : Session}
    (hlower : ∀ {waiting task s' site}, Stacked step fuel s n waiting task s' →
      step.Relays limit fuel s task s' → task.OverflowsAt n site s' →
        step.CallsBeyond limit fuel s site)
    (h : Stacked step fuel s (n + 1) waiting task s') (hrelays : step.Relays limit fuel s task s')
    (hcalls : Calls n task s' task' s₁) : step.Relays limit fuel s task' s₁ := by
  obtain ⟨hhosts, htask⟩ := hrelays
  refine ⟨(hcalls.upholds htask hhosts).1, ?_⟩
  cases hcalls with
  | native hnative => exact (hhosts hnative _).mono _ fun _ => False.elim
  | asked hstarts => exact hstarts.within
  | answered hanswer =>
      cases htask with
      | ask _ _ hstep _ hnext =>
          refine (hnext _).mono _ fun e he => he.elim id fun htells hover => ?_
          obtain ⟨task, s₂, hstarts, hoverflows⟩ :=
            (OverflowAnswer.of_tells hanswer htells hover).starts
          have hstarted : step.Relays limit fuel s task s₂ :=
            ⟨(hstarts.upholds hstep hhosts).1, hstarts.within⟩
          exact hlower (.calls h (.asked hstarts)) hstarted hoverflows
  | recalled =>
      cases htask with
      | recollect hnext => exact hnext _
  | kept =>
      cases htask with
      | keep haction => exact haction
  | _ => trivial

/-- If host functions only relay overflows, each one comes from a call beyond the limit. -/
theorem Stacked.callsBeyond {limit : CallLimit} (hs : s.Idle limit)
    (h : Stacked step fuel s n waiting task s') (hrelays : step.Relays limit fuel s task s')
    (hover : task.OverflowsAt n site s') : step.CallsBeyond limit fuel s site := by
  induction n generalizing waiting task s' site with
  | zero => cases task <;> cases hover
  | succ n ih =>
      obtain hdeep | hraises | ⟨task', s₁, hcalls, hlater⟩ := hover.step
      · exact hdeep.callsBeyond hs h
      · cases task with
        | perform action =>
            obtain rfl : action = _ := hraises
            cases hrelays.2 with
            | raise htold => exact (htold _ rfl rfl).elim False.elim fun h => h rfl
        | _ => exact hraises.elim
      · exact ih (.calls h hcalls) (hcalls.relays ih h hrelays) hlater

theorem Stacked.relays {limit : CallLimit} (hs : s.Idle limit)
    (hhosts : s.HostsWithin .noInvention) (hstep : step.Within .noInvention)
    (h : Stacked step fuel s n waiting task s') : step.Relays limit fuel s task s' := by
  induction h with
  | starts hstarts => exact ⟨(hstarts.upholds hstep hhosts).1, hstarts.within⟩
  | calls hstacked hcalls ih => exact hcalls.relays (callsBeyond hs) hstacked ih

end

/-! ## Sessions -/

/-- The depth of calls during a step from a session, and the overflows of the stack. -/
structure Step.CountsCalls (step : Step) (fuel : Nat) (s : Session) (limit : CallLimit) : Prop where
  /-- However the step ends, the depth is what it was. -/
  restored : (leftBy (step.take fuel s)).depth = s.depth
  /-- The depth is the number of calls of functions and classes that are going on. -/
  counted : ∀ {n waiting task s'}, Stacked step fuel s n waiting task s' →
    s'.depth = activeCalls waiting
  /-- No call evaluates anything beyond the limit. -/
  within : ∀ {n waiting task s'}, Stacked step fuel s n waiting task s' →
    activeCalls waiting ≠ 0 → limit.exceeded s'.depth = false
  /-- Calls are made once the callee and the number of arguments were looked at.  Those of programs
  stand in call expressions and are reported at their parentheses. -/
  accepted : ∀ {n waiting site callee arguments s'},
    Stacked step fuel s n waiting (.invoke site callee arguments) s' →
      callee.arity? = some arguments.length ∧
        ((∃ env number e es, waiting.head? = some (.eval env (.call number e site es))) ∨ site = Eval.hostSite)
  /-- A call that would bring the number beyond the limit overflows the stack, before it does
  anything. -/
  raised : ∀ {n waiting site callee arguments s'},
    Stacked step fuel s (n + 1) waiting (.invoke site callee arguments) s' →
      callee.isCounted = true → limit.exceeded (activeCalls waiting + 1) = true →
        Eval.invoke (n + 1) site callee arguments s' = .error (.fault ⟨site, .stackOverflow⟩) s'
  /-- Nothing else overflows it, neither an evaluation nor the step itself: host functions may raise such
  an error … -/
  caused : ∀ {n waiting task s' site}, Stacked step fuel s n waiting task s' →
    task.OverflowsAt n site s' → step.CallsBeyond limit fuel s site ∨ step.HostRaises fuel s site
  reported : ∀ {site}, OverflowAnswer site (step.take fuel s) →
    step.CallsBeyond limit fuel s site ∨ step.HostRaises fuel s site
  /-- … but if they raise only those that they were told of, all come from calls beyond the limit. -/
  relayed : s.HostsWithin .noInvention → step.Within .noInvention →
    (∀ {n waiting task s' site}, Stacked step fuel s n waiting task s' →
      task.OverflowsAt n site s' → step.CallsBeyond limit fuel s site) ∧
    ∀ {site}, OverflowAnswer site (step.take fuel s) → step.CallsBeyond limit fuel s site

theorem Session.Reached.countsCalls {limit : CallLimit} {s : Session}
    (h : s.Reached ⟨limit, none⟩) :
    s.depth = 0 ∧ ∀ (step : Step) (fuel : Nat), step.CountsCalls fuel s limit := by
  have hidle : s.Idle limit := ⟨h.idle.1, h.idle.2⟩
  refine ⟨hidle.depth, fun step fuel => ?_⟩
  constructor
  · exact (step.sameDepth_take fuel s).depth
  · exact hidle.depth_eq
  · intro n waiting task s' hstacked hcalls
    rw [← hidle.exceeded hstacked, hstacked.depth_eq.2]
    exact hstacked.within hcalls
  · exact Stacked.accepted
  · intro n waiting site callee arguments s' hstacked hcounted hbeyond
    have hblank : s'.limits.calls ≠ .blank := by
      rw [hstacked.depth_eq.2, hidle.limits]
      rintro rfl
      cases hbeyond
    rw [← hidle.exceeded hstacked, ← hidle.depth_eq hstacked] at hbeyond
    exact Task.TooDeep.overflows ⟨rfl, hcounted, hbeyond⟩ hblank
  · exact Stacked.callsBeyond_or_hostRaises hidle
  · intro site hanswer
    obtain ⟨task, s₁, hstarts, hover⟩ := hanswer.starts
    exact Stacked.callsBeyond_or_hostRaises hidle (.starts hstarts) hover
  · intro hhosts hstep
    refine ⟨fun h => h.callsBeyond hidle (h.relays hidle hhosts hstep), fun hanswer => ?_⟩
    obtain ⟨task, s₁, hstarts, hover⟩ := hanswer.starts
    have hstacked : Stacked step fuel s fuel [] task s₁ := .starts hstarts
    exact hstacked.callsBeyond hidle (hstacked.relays hidle hhosts hstep) hover

/-- An initializer that makes an instance again is too deep where one call is allowed. -/
theorem Session.Reached.countsCalls_initializer :
    let s := Session.start ⟨.atMost 1, none⟩ [] fun _ => 0
    let step := Step.run "class A \x7b init() \x7b this.a = A(); \x7d \x7d\nprint A();"
    let site : Token := ⟨.rightParen, ")", .nil, 1⟩
    s.Reached ⟨.atMost 1, none⟩ ∧ OverflowAnswer site (step.take 20 s) ∧
      step.CallsBeyond (.atMost 1) 20 s site ∧ (leftBy (step.take 20 s)).depth = s.depth := by
  intro s step site
  have hreached : s.Reached ⟨.atMost 1, none⟩ := .start
  have hanswer : OverflowAnswer site (step.take 20 s) := by
    set_option maxRecDepth 3000 in
    rw [show step = .run (String.ofList _) from rfl]
    simp -zeta only [Step.take, Eval.take, Eval.runProgram, compile, Scan.ofSource_ofList]
    decide +kernel
  obtain ⟨-, hcounts⟩ := hreached.countsCalls
  obtain ⟨-, hbeyond⟩ :=
    (hcounts step 20).relayed (Session.hostsWithin_start _ _ _) .run
  exact ⟨hreached, hanswer, hbeyond hanswer, (hcounts step 20).restored⟩

end Lox
