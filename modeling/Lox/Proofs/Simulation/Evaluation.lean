import Lox.Proofs.Simulation.Steps

/-!
# Evaluations of code alike

The main result of this part: code alike, evaluated in sessions alike, leads to sessions alike and
ends in the same way, with values alike or with the same fault, and never gets stuck.  The proof is
by induction on the number of steps; each construct of the language has a case of its own.
-/

namespace Lox

/-! ## Operators -/

section

variable {ℓ : Likeness} {lockstep : Prop} {w : World} {own : Bool}

/-- Results of operators alike: values alike, or the same fault of an operator that there is. -/
inductive ResultAlike (ℓ : Likeness) (w : World) :
    Except Fault Value → Except Fault Value → Prop where
  | ok : Value.Alike ℓ w v v' → ResultAlike ℓ w (.ok v) (.ok v')
  | error : f.Proper → ResultAlike ℓ w (.error f) (.error f)

theorem simulates_operate {op op' : Token} (hop : ℓ.token own op op') {r r' : Except Fault Value}
    (h : ResultAlike ℓ w r r') :
    Simulates ℓ lockstep (Value.Alike ℓ) w (Eval.operate op r) (Eval.operate op' r') := by
  cases h with
  | ok hv => exact .pure hv
  | error hf => exact simulates_fault hop hf

theorem applyUnary_alike {op op' : Token} (hop : ℓ.token own op op')
    (hkind : op.kind = .bang ∨ op.kind = .minus) {v v' : Value} (hv : Value.Alike ℓ w v v') :
    ResultAlike ℓ w (applyUnary op v) (applyUnary op' v') := by
  unfold applyUnary
  rw [ℓ.token_kind hop]
  rcases hkind with hkind | hkind
  · rw [hkind]
    dsimp only
    rw [hv.isTruthy_eq]
    exact .ok .bool
  · rw [hkind]
    cases hv with
    | number => exact .ok .number
    | _ => exact .error trivial

theorem add_alike {v v' u u' : Value} (hv : Value.Alike ℓ w v v') (hu : Value.Alike ℓ w u u') :
    ResultAlike ℓ w (add v u) (add v' u') := by
  cases hv with
  | number =>
      cases hu with
      | number => exact .ok .number
      | _ => exact .error trivial
  | string =>
      cases hu with
      | string => exact .ok .string
      | _ => exact .error trivial
  | _ => exact .error trivial

theorem arithmetic_alike {op op' : Token} (hop : ℓ.token own op op') {level : Nat}
    (hlevel : 3 ≤ level) (hkind : op.kind.precedence? = some level) (hequal : op.kind ≠ .equalEqual)
    (hbang : op.kind ≠ .bangEqual) (hplus : op.kind ≠ .plus) (a b : Float) :
    ResultAlike ℓ w (arithmetic op a b) (arithmetic op' a b) := by
  unfold arithmetic
  rw [ℓ.token_kind hop]
  generalize op.kind = kind at hkind hequal hbang hplus
  cases kind with
  | minus | star | slash => exact .ok .number
  | greater | greaterEqual | less | lessEqual => exact .ok .bool
  | equalEqual => exact absurd rfl hequal
  | bangEqual => exact absurd rfl hbang
  | plus => exact absurd rfl hplus
  | kwAnd | kwOr =>
      cases hkind
      omega
  | _ => cases hkind

theorem applyBinary_alike {op op' : Token} (hop : ℓ.token own op op')
    (hkind : ∃ level, 3 ≤ level ∧ op.kind.precedence? = some level) {v v' u u' : Value}
    (hv : Value.Alike ℓ w v v') (hu : Value.Alike ℓ w u u') :
    ResultAlike ℓ w (applyBinary op v u) (applyBinary op' v' u') := by
  obtain ⟨level, hlevel, hkind⟩ := hkind
  unfold applyBinary
  rw [ℓ.token_kind hop]
  split
  · rw [hv.equals_eq hu]
    exact .ok .bool
  · rw [hv.equals_eq hu]
    exact .ok .bool
  · exact add_alike hv hu
  · next hequal hbang hplus =>
      cases hv with
      | number =>
          cases hu with
          | number => exact arithmetic_alike hop hlevel hkind hequal hbang hplus _ _
          | _ => exact .error trivial
      | _ => exact .error trivial

end

/-! ## What one more step preserves -/

/-- Evaluations with these numbers of steps do alike on what is alike. -/
structure EvaluatesAlike (ℓ : Likeness) (lockstep : Prop) (n n' : Nat) : Prop where
  eval : ∀ {w code c σ ρs env e e'}, Sited w code c σ ρs env (.expr e) →
    Expr.Alike ℓ code ρs e e' →
      Simulates ℓ lockstep (Value.Alike ℓ) w (Eval.eval n env e) (Eval.eval n' env e')
  evalAll : ∀ {w code c σ ρs env es es'}, Sited w code c σ ρs env (.exprs es) →
    ArgumentsAlike ℓ code ρs es es' →
      Simulates ℓ lockstep (fun w' => List.Forall₂ (Value.Alike ℓ w')) w (Eval.evalAll n env es)
        (Eval.evalAll n' env es')
  exec : ∀ {w code c σ ρs env s s'}, Sited w code c σ ρs env (.stmt s) →
    Stmt.Alike ℓ code ρs s s' →
      Simulates ℓ lockstep (Completion.Alike ℓ c fun w' => Covers w' env (s.resolve c σ).2 ρs) w
        (Eval.exec n env s) (Eval.exec n' env s')
  execAll : RunsAlike ℓ lockstep (Eval.execAll n) (Eval.execAll n')
  invoke : ∀ {w own t t' v v' args args'}, ℓ.token own t t' → Value.Alike ℓ w v v' →
    List.Forall₂ (Value.Alike ℓ w) args args' → v.arity? = some args.length →
      Simulates ℓ lockstep (Value.Alike ℓ) w (Eval.invoke n t v args) (Eval.invoke n' t' v' args')
  perform : ∀ {w a a'}, HostAction.Alike ℓ w a a' →
      Simulates ℓ lockstep (Value.Alike ℓ) w (Eval.perform n a) (Eval.perform n' a')

namespace EvaluatesAlike

variable {ℓ : Likeness} {lockstep : Prop} {n n' : Nat} {w : World} {code : Code}
  {c : Context} {σ : Scopes} {ρs : List (String → String)} {env : Environment}

theorem eval_succ (ih : EvaluatesAlike ℓ lockstep n n') {e e' : Expr}
    (hsited : Sited w code c σ ρs env (.expr e)) (h : Expr.Alike ℓ code ρs e e') :
    Simulates ℓ lockstep (Value.Alike ℓ) w (Eval.eval (n + 1) env e)
      (Eval.eval (n' + 1) env e') := by
  have hchecked := hsited.checked
  have hformed : e.Formed := hchecked.formed
  cases h with
  | literal _ =>
      simp only [Eval.eval]
      exact .pure (Value.alike_ofLiteral _)
  | grouping _ h =>
      simp only [Eval.eval]
      exact ih.eval hsited.grouping h
  | unary _ hop h =>
      simp only [Eval.eval]
      refine (ih.eval hsited.unary h).bind fun w₁ v v' _ hv => ?_
      exact simulates_operate hop (applyUnary_alike hop hformed.1 hv)
  | binary _ hleft hop hright =>
      simp only [Eval.eval]
      refine (ih.eval hsited.binaryLeft hleft).bind fun w₁ v v' hw₁ hv => ?_
      refine (ih.eval (hsited.binaryRight.mono hw₁) hright).bind fun w₂ u u' hw₂ hu => ?_
      exact simulates_operate hop (applyBinary_alike hop hformed.1 (hv.mono hw₂) hu)
  | logical _ hleft hop hright =>
      simp only [Eval.eval]
      refine (ih.eval hsited.logicalLeft hleft).bind fun w₁ v v' hw₁ hv => ?_
      rw [hv.isTruthy_eq, ℓ.token_kind hop]
      split
      · exact .pure hv
      · exact ih.eval (hsited.logicalRight.mono hw₁) hright
  | read _ htoken hname =>
      simp only [Eval.eval]
      obtain ⟨htable, hholds⟩ := hchecked.read
      exact simulates_lookUp hsited List.mem_cons_self htable hholds htoken hname
  | assign _ htoken hname h =>
      simp only [Eval.eval]
      refine (ih.eval hsited.assigned h).bind fun w₁ v v' hw₁ hv => ?_
      refine (simulates_assign (hsited.mono hw₁) (List.mem_append_right _ List.mem_cons_self)
        hchecked.assign htoken hname hformed.1 hv).bind fun w₂ _ _ hw₂ _ => ?_
      exact .pure (hv.mono hw₂)
  | call _ hcallee hparen hargs =>
      simp only [Eval.eval]
      refine (ih.eval hsited.callee hcallee).bind fun w₁ f f' hw₁ hf => ?_
      refine (ih.evalAll (hsited.arguments.mono hw₁) hargs).bind fun w₂ vs vs' hw₂ hvs => ?_
      rw [← hvs.length_eq]
      refine (simulates_checkCall hparen (hf.mono hw₂) vs.length).bind
        fun w₃ _ _ hw₃ harity => ?_
      exact ih.invoke hparen ((hf.mono hw₂).mono hw₃) (hvs.imp fun _ _ h => h.mono hw₃) harity
  | get _ hobject hname =>
      simp only [Eval.eval]
      refine (ih.eval hsited.getObject hobject).bind fun w₁ v v' hw₁ hv => ?_
      cases hv with
      | object hcls => exact simulates_property hcls hname
      | _ => exact simulates_fault hname.1 (by trivial)
  | set _ hobject hname hvalue =>
      simp only [Eval.eval]
      refine (ih.eval hsited.setObject hobject).bind fun w₁ v v' hw₁ hv => ?_
      cases hv with
      | object hcls =>
          dsimp only
          refine (ih.eval (hsited.setValue.mono hw₁) hvalue).bind fun w₂ u u' hw₂ hu => ?_
          rw [hname.2]
          exact (simulates_setField hu).bind fun w₃ _ _ hw₃ _ => .pure (hu.mono hw₃)
      | _ => exact simulates_fault hname.1 (by trivial)
  | self _ hkeyword =>
      simp only [Eval.eval]
      obtain ⟨hlexeme, k, htable, hthis⟩ := hchecked.self
      exact simulates_self hsited List.mem_cons_self htable hthis hlexeme hkeyword
  | super _ hkeyword hmethod =>
      simp only [Eval.eval]
      obtain ⟨k, htable, hsuper, hthis⟩ := hchecked.super
      exact simulates_superMethod hsited List.mem_cons_self htable hsuper hthis hmethod

theorem evalAll_succ (ih : EvaluatesAlike ℓ lockstep n n') {es es' : List Expr}
    (hsited : Sited w code c σ ρs env (.exprs es)) (h : ArgumentsAlike ℓ code ρs es es') :
    Simulates ℓ lockstep (fun w' => List.Forall₂ (Value.Alike ℓ w')) w
      (Eval.evalAll (n + 1) env es) (Eval.evalAll (n' + 1) env es') := by
  cases h with
  | nil =>
      simp only [Eval.evalAll]
      exact .pure .nil
  | cons hfirst hmore =>
      simp only [Eval.evalAll]
      refine (ih.eval hsited.firstArgument hfirst).bind fun w₁ v v' hw₁ hv => ?_
      refine (ih.evalAll (hsited.moreArguments.mono hw₁) hmore).bind fun w₂ vs vs' hw₂ hvs => ?_
      exact .pure (.cons (hv.mono hw₂) hvs)

theorem execAll_succ (ih : EvaluatesAlike ℓ lockstep n n') :
    RunsAlike ℓ lockstep (Eval.execAll (n + 1)) (Eval.execAll (n' + 1)) := by
  intro w code c σ ρs env ss ss' hsited h
  cases h with
  | nil =>
      simp only [Eval.execAll]
      exact .pure (.normal trivial)
  | cons hfirst hmore =>
      simp only [Eval.execAll]
      refine (ih.exec hsited.firstStmt hfirst).bind fun w₁ r r' hw₁ hr => ?_
      cases hr with
      | normal hcovers₁ => exact ih.execAll ((hsited.mono hw₁).moreStmts hcovers₁) hmore
      | returned hin hv => exact .pure (.returned hin hv)

theorem exec_cond (ih : EvaluatesAlike ℓ lockstep n n') {e e' : Expr} {yes yes' : Stmt}
    {no no' : Option Stmt} (hsited : Sited w code c σ ρs env (.stmt (.cond e yes no)))
    (hcondition : Expr.Alike ℓ code ρs e e') (hyes : Stmt.Alike ℓ code ρs yes yes')
    (hno : Option.Rel (Stmt.Alike ℓ code ρs) no no') :
    Simulates ℓ lockstep (Completion.Alike ℓ c fun w' => Covers w' env σ ρs) w
      (Eval.exec (n + 1) env (.cond e yes no)) (Eval.exec (n' + 1) env (.cond e' yes' no')) := by
  have hformed : (Stmt.cond e yes no).Formed := hsited.checked.formed
  simp only [Eval.exec]
  refine (ih.eval hsited.condition hcondition).bind fun w₁ v v' hw₁ hv => ?_
  rw [hv.isTruthy_eq]
  split
  · have hquiet : (yes.resolve c σ).2 = σ := by
      apply code.resolve_snd hsited.yes.reaches
      cases no with
      | none => exact hformed.2.2
      | some no => exact hformed.2.1.2
    have hdone := ih.exec (hsited.yes.mono hw₁) hyes
    rwa [hquiet] at hdone
  · cases hno with
    | none => exact .pure (.normal (hsited.covers.mono hw₁))
    | some hno =>
        have hdone := ih.exec (hsited.no.mono hw₁) hno
        rwa [code.resolve_snd hsited.no.reaches hformed.2.2.2] at hdone

theorem exec_loop (ih : EvaluatesAlike ℓ lockstep n n') {e e' : Expr} {s s' : Stmt}
    (hsited : Sited w code c σ ρs env (.stmt (.loop e s)))
    (hcondition : Expr.Alike ℓ code ρs e e') (hbody : Stmt.Alike ℓ code ρs s s') :
    Simulates ℓ lockstep (Completion.Alike ℓ c fun w' => Covers w' env σ ρs) w
      (Eval.exec (n + 1) env (.loop e s)) (Eval.exec (n' + 1) env (.loop e' s')) := by
  have hformed : (Stmt.loop e s).Formed := hsited.checked.formed
  simp only [Eval.exec]
  refine (ih.eval hsited.loopCondition hcondition).bind fun w₁ v v' hw₁ hv => ?_
  rw [hv.isTruthy_eq]
  split
  · have hround := ih.exec (hsited.loopBody.mono hw₁) hbody
    rw [code.resolve_snd hsited.loopBody.reaches hformed.2.2] at hround
    refine hround.bind fun w₂ r r' hw₂ hr => ?_
    cases hr with
    | normal hcovers₂ =>
        have hagain := ih.exec ((hsited.mono hw₁).mono hw₂) (.loop hcondition hbody)
        rwa [code.resolve_snd hsited.reaches rfl] at hagain
    | returned hin hv => exact .pure (.returned hin hv)
  · exact .pure (.normal (hsited.covers.mono hw₁))

/-- A declared name is bound to a value that may already make use of it. -/
private theorem define_settles {name name' : Token} (hname : name'.lexeme = renameHere ρs name.lexeme)
    (hplain : name.Plain) (hcovers : Covers w env σ ρs) (hopen : σ.Open) {v v' : Value}
    (hv : ∀ w', w ≤ w' → Covers w' env (σ.settle name) ρs → Value.Alike ℓ w' v v') :
    Simulates ℓ lockstep (fun w' _ _ => Covers w' env (σ.settle name) ρs) w
      (Eval.define env name.lexeme v) (Eval.define env name'.lexeme v') := by
  rw [hname]
  rw [Scopes.settle_eq_put] at hv ⊢
  exact (simulates_define hcovers hopen (fun _ => hplain) hv).imp fun _ h => h.1

theorem exec_succ (ih : EvaluatesAlike ℓ lockstep n n') {s s' : Stmt}
    (hsited : Sited w code c σ ρs env (.stmt s)) (h : Stmt.Alike ℓ code ρs s s') :
    Simulates ℓ lockstep (Completion.Alike ℓ c fun w' => Covers w' env (s.resolve c σ).2 ρs) w
      (Eval.exec (n + 1) env s) (Eval.exec (n' + 1) env s') := by
  have hchecked := hsited.checked
  have hformed : s.Formed := hchecked.formed
  have hopen : σ.Open := hchecked.placed.1.open
  have hcovers := hsited.covers
  cases h with
  | expression h =>
      simp only [Eval.exec]
      exact (ih.eval hsited.expression h).bind
        fun w₁ _ _ hw₁ _ => .pure (.normal (hcovers.mono hw₁))
  | print h =>
      simp only [Eval.exec]
      refine (ih.eval hsited.print h).bind fun w₁ v v' hw₁ hv => ?_
      rw [hv.display_eq]
      exact (simulates_printLine _).bind
        fun w₂ _ _ hw₂ _ => .pure (.normal ((hcovers.mono hw₁).mono hw₂))
  | var _ hname =>
      simp only [Eval.exec]
      exact (define_settles hname hformed hcovers hopen fun _ _ _ => .nil).bind
        fun w₁ _ _ _ hcovers₁ => .pure (.normal hcovers₁)
  | initialised _ hname h =>
      simp only [Eval.exec]
      have hinitial := hsited.initial (hcovers.declare hopen hformed.1)
      refine (ih.eval hinitial h).bind fun w₁ v v' hw₁ hv => ?_
      exact (define_settles hname hformed.1 (hcovers.mono hw₁) hopen
        fun _ hw _ => hv.mono hw).bind fun w₂ _ _ _ hcovers₂ => .pure (.normal hcovers₂)
  | block hρ h =>
      simp only [Eval.exec]
      refine (simulates_enter hcovers hρ).bind fun w₁ inner inner' hw₁ ⟨hinner, hentered⟩ => ?_
      subst hinner
      refine (ih.execAll ((hsited.mono hw₁).block hentered) h).imp fun {w₂ r r'} hw₂ hr => ?_
      cases hr with
      | normal _ => exact .normal ((hcovers.mono hw₁).mono hw₂)
      | returned hin hv => exact .returned hin hv
  | ifOnly hcondition hyes =>
      rw [code.resolve_snd hsited.reaches rfl]
      exact ih.exec_cond hsited hcondition hyes .none
  | ifElse hcondition hyes hno =>
      rw [code.resolve_snd hsited.reaches rfl]
      exact ih.exec_cond hsited hcondition hyes (.some hno)
  | loop hcondition hbody =>
      rw [code.resolve_snd hsited.reaches rfl]
      exact ih.exec_loop hsited hcondition hbody
  | @function _ decl decl' hhere h =>
      simp only [Eval.exec]
      refine (simulates_newClosure env .function decl decl').bind fun w₁ f f' hw₁ hf => ?_
      obtain ⟨i, rfl, rfl⟩ := hf
      refine (define_settles (h.name.2.trans hhere.symm) hformed.1 (hcovers.mono hw₁) hopen
        fun w₂ hw₂ hcovers₂ => .closure ?_).bind fun w₂ _ _ _ hcovers₂ => .pure (.normal hcovers₂)
      have hsited₂ := ((hsited.mono hw₁).mono hw₂).function hcovers₂
      exact ⟨rfl, rfl, rfl, ⟨code, _, _, ρs, by simp, hsited₂, h⟩,
        fun _ => ⟨code, _, _, hsited₂.accepted, hsited.reaches⟩, fun h => absurd rfl h⟩
  | ret _ =>
      simp only [Eval.exec]
      exact .pure (.returned hchecked.returns .nil)
  | returned _ h =>
      simp only [Eval.exec]
      exact (ih.eval hsited.returned h).bind
        fun _ _ _ _ hv => .pure (.returned hchecked.returns hv)
  | @classDecl _ _ _ base _ _ _ hname hhere hbase hdecls =>
      simp only [Eval.exec]
      refine (simulates_declareClass hsited hname hhere hbase hdecls).bind
        fun _ _ _ _ hcovers₁ => .pure (.normal ?_)
      cases base with
      | none => exact hcovers₁
      | some _ => exact hcovers₁

theorem invoke_succ (ih : EvaluatesAlike ℓ lockstep n n') {t t' : Token} (ht : ℓ.token own t t')
    {v v' : Value} (hv : Value.Alike ℓ w v v') {args args' : List Value}
    (hargs : List.Forall₂ (Value.Alike ℓ w) args args') (harity : v.arity? = some args.length) :
    Simulates ℓ lockstep (Value.Alike ℓ) w (Eval.invoke (n + 1) t v args)
      (Eval.invoke (n' + 1) t' v' args') := by
  cases hv with
  | native hi =>
      intro s s' hs
      obtain ⟨native, native', hnative, hnative', halike⟩ := hs.natives.alike hi
      simp only [Eval.invoke, eval_get_bind_apply, hnative, hnative']
      cases halike with
      | clock => exact simulates_readClock s s' hs
      | readLine => exact simulates_readLine s s' hs
      | host hbody =>
          have hlength := (Option.some.inj harity).symm
          exact ih.perform (HostAction.alike_body hbody hlength hargs) s s' hs
  | closure hf =>
      simp only [Eval.invoke]
      exact simulates_nested ht
        (simulates_activate ih.execAll hf hargs (Option.some.inj harity).symm)
  | classObject hcls =>
      simp only [Eval.invoke]
      exact simulates_nested ht
        (simulates_instantiate ih.execAll hcls hargs (Option.some.inj harity).symm)
  | _ => cases harity

theorem proceeds (h : EvaluatesAlike ℓ lockstep n n') :
    ProceedsAlike ℓ lockstep (Eval.eval n) (Eval.eval n') (Eval.execAll n) (Eval.execAll n')
      (Eval.invoke n) (Eval.invoke n') :=
  ⟨h.eval, h.execAll, h.invoke⟩

theorem perform_succ (ih : EvaluatesAlike ℓ lockstep n n') {a a' : HostAction}
    (h : HostAction.Alike ℓ w a a') :
    Simulates ℓ lockstep (Value.Alike ℓ) w (Eval.perform (n + 1) a)
      (Eval.perform (n' + 1) a') := by
  cases h with
  | give ho hstrict =>
      simp only [Eval.perform]
      exact simulates_toValue ho hstrict
  | @raise e e' _ he =>
      simp only [Eval.perform]
      obtain ⟨⟨own, ht⟩, hfault, hproper⟩ := he
      obtain ⟨t, f⟩ := e
      obtain ⟨t', f'⟩ := e'
      cases hfault
      exact simulates_fault ht hproper
  | raiseHost hstrict =>
      simp only [Eval.perform]
      exact simulates_hostError hstrict
  | ask hallowed hstep hnext =>
      simp only [Eval.perform]
      refine (simulates_attempt_take ih.proceeds hallowed hstep).bind fun w₁ r r' hw₁ hr => ?_
      exact ih.perform (hnext w₁ r r' hw₁ hr.1 hr.2)
  | recollect hnext =>
      simp only [Eval.perform]
      intro s s' hs
      exact ih.perform (hnext w _ _ (World.le_refl w) hs.memory) s s' hs
  | keep hforms hnext =>
      simp only [Eval.perform]
      refine (simulates_keep hforms).bind fun w₁ _ _ _ hsame => ?_
      subst hsame
      exact ih.perform hnext

end EvaluatesAlike

/-! ## Any number of steps -/

section

variable {ℓ : Likeness} {lockstep : Prop} {w : World}

/-- Without steps left nothing happens. -/
private theorem simulates_spent {α β : Type} {R : World → α → β → Prop} {x : Eval α} {y : Eval β}
    (hx : x = throw .outOfFuel) (hy : lockstep → y = throw .outOfFuel) :
    Simulates ℓ lockstep R w x y := by
  intro s s' hs
  subst hx
  by_cases hlock : lockstep
  · rw [hy hlock]
    exact .outOfFuel (World.later_refl w) hs
  · exact .slack hlock

/-- Evaluations of what is alike do alike, whatever the number of steps. -/
theorem evaluatesAlike {n n' : Nat} (hle : n ≤ n') (hlock : lockstep → n' = n) :
    EvaluatesAlike ℓ lockstep n n' := by
  induction n generalizing n' with
  | zero =>
      exact ⟨fun _ _ => simulates_spent rfl fun h => hlock h ▸ rfl,
        fun _ _ => simulates_spent rfl fun h => hlock h ▸ rfl,
        fun _ _ => simulates_spent rfl fun h => hlock h ▸ rfl,
        fun _ _ => simulates_spent rfl fun h => hlock h ▸ rfl,
        fun _ _ _ _ => simulates_spent rfl fun h => hlock h ▸ rfl,
        fun _ => simulates_spent rfl fun h => hlock h ▸ rfl⟩
  | succ n ih =>
      obtain ⟨k, rfl⟩ : ∃ k, n' = k + 1 := ⟨n' - 1, by omega⟩
      have hprev : EvaluatesAlike ℓ lockstep n k :=
        ih (Nat.le_of_succ_le_succ hle) fun h => Nat.succ.inj (hlock h)
      exact ⟨hprev.eval_succ, hprev.evalAll_succ, hprev.exec_succ, hprev.execAll_succ,
        fun ht hv hargs harity => hprev.invoke_succ ht hv hargs harity, hprev.perform_succ⟩

end

end Lox
