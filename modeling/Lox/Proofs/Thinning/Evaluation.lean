import Lox.Proofs.Simulation.Evaluation
import Lox.Proofs.Thinning.Run

/-!
# Evaluation with frames left out

Twins that are evaluated in environments, of which the second one lacks the frames that are left out,
agree: they come to related values or to the same interrupt, and leave related sessions behind.  The
proof is by induction on the number of steps; each construct of the language has a case of its own.
-/

namespace Lox

/-! ## Operators -/

section

variable {early late : Prop} {w : Layout}

inductive ResultThins (w : Layout) : Except Fault Value → Except Fault Value → Prop where
  | ok : Value.Thins w v v' → ResultThins w (.ok v) (.ok v')
  | error : ResultThins w (.error f) (.error f)

theorem agree_operate (op : Token) {r r' : Except Fault Value} (h : ResultThins w r r') :
    Agree early late (Value.Thins) w (Eval.operate op r) (Eval.operate op r') := by
  cases h with
  | ok hv => exact .pure hv
  | error => exact .fault

theorem applyUnary_thins (op : Token) {v v' : Value} (hv : Value.Thins w v v') :
    ResultThins w (applyUnary op v) (applyUnary op v') := by
  unfold applyUnary
  split
  · rw [hv.isTruthy_eq]
    exact .ok .bool
  · cases hv with
    | number => exact .ok .number
    | _ => exact .error
  · exact .error

theorem add_thins {v v' u u' : Value} (hv : Value.Thins w v v') (hu : Value.Thins w u u') :
    ResultThins w (add v u) (add v' u') := by
  cases hv with
  | number =>
      cases hu with
      | number => exact .ok .number
      | _ => exact .error
  | string =>
      cases hu with
      | string => exact .ok .string
      | _ => exact .error
  | _ => exact .error

theorem arithmetic_thins (op : Token) (a b : Float) :
    ResultThins w (arithmetic op a b) (arithmetic op a b) := by
  unfold arithmetic
  split
  all_goals first | exact .ok .number | exact .ok .bool | exact .error

theorem applyBinary_thins (op : Token) {v v' u u' : Value} (hv : Value.Thins w v v')
    (hu : Value.Thins w u u') : ResultThins w (applyBinary op v u) (applyBinary op v' u') := by
  unfold applyBinary
  split
  · rw [hv.equals_eq hu]
    exact .ok .bool
  · rw [hv.equals_eq hu]
    exact .ok .bool
  · exact add_thins hv hu
  · cases hv with
    | number =>
        cases hu with
        | number => exact arithmetic_thins op _ _
        | _ => exact .error
    | _ => exact .error

end

/-! ## What one more step preserves -/

/-- Evaluations with these numbers of steps agree on twins. -/
structure EvaluationsAgree (early late : Prop) (n n' : Nat) : Prop where
  eval : ∀ {w T gaps env env' e e'}, Twin.Sited T w gaps env env' → Expr.Thins T gaps e e' →
    Agree early late (Value.Thins) w (Eval.eval n env e) (Eval.eval n' env' e')
  evalAll : ∀ {w T gaps env env' es es'}, Twin.Sited T w gaps env env' →
    ArgumentsThin T gaps es es' →
      Agree early late (fun w' => List.Forall₂ (Value.Thins w')) w (Eval.evalAll n env es)
        (Eval.evalAll n' env' es')
  exec : ∀ {w T gaps env env' s s'}, Twin.Sited T w gaps env env' → Stmt.Thins T gaps s s' →
    Agree early late (Completion.Thins) w (Eval.exec n env s) (Eval.exec n' env' s')
  execAll : RunsAgree early late (Eval.execAll n) (Eval.execAll n')
  invoke : ∀ {w v v' args args'} (site : Token), Value.Thins w v v' →
    List.Forall₂ (Value.Thins w) args args' → v.arity? = some args.length →
      Agree early late (Value.Thins) w (Eval.invoke n site v args) (Eval.invoke n' site v' args')
  perform : ∀ {w a a'}, HostAction.Follows .outward (Layout.view w) a a' →
    Agree early late (Value.Thins) w (Eval.perform n a) (Eval.perform n' a')

namespace EvaluationsAgree

variable {early late : Prop} {n n' : Nat} {w : Layout} {T : Twin} {gaps : Gaps}
  {env env' : Environment}

theorem eval_succ (ih : EvaluationsAgree early late n n') (hsited : T.Sited w gaps env env')
    {e e' : Expr} (h : Expr.Thins T gaps e e') :
    Agree early late (Value.Thins) w (Eval.eval (n + 1) env e) (Eval.eval (n' + 1) env' e') := by
  cases h with
  | literal =>
      simp only [Eval.eval]
      exact .pure (Value.thins_ofLiteral _)
  | grouping h =>
      simp only [Eval.eval]
      exact ih.eval hsited h
  | unary h =>
      simp only [Eval.eval]
      refine (ih.eval hsited h).bind fun w₁ v v' _ hv => ?_
      exact agree_operate _ (applyUnary_thins _ hv)
  | binary hleft hright =>
      simp only [Eval.eval]
      refine (ih.eval hsited hleft).bind fun w₁ v v' hw₁ hv => ?_
      refine (ih.eval (hsited.mono hw₁) hright).bind fun w₂ u u' hw₂ hu => ?_
      exact agree_operate _ (applyBinary_thins _ (hv.mono hw₂) hu)
  | logical hleft hright =>
      simp only [Eval.eval]
      refine (ih.eval hsited hleft).bind fun w₁ v v' hw₁ hv => ?_
      rw [hv.isTruthy_eq]
      split
      · exact .pure hv
      · exact ih.eval (hsited.mono hw₁) hright
  | read hid =>
      simp only [Eval.eval]
      exact agree_lookUp hsited hid _
  | assign hid h =>
      simp only [Eval.eval]
      refine (ih.eval hsited h).bind fun w₁ v v' hw₁ hv => ?_
      exact (agree_assign (hsited.mono hw₁) hid _ hv).bind fun w₂ _ _ hw₂ _ => .pure (hv.mono hw₂)
  | call hcallee hargs =>
      simp only [Eval.eval]
      refine (ih.eval hsited hcallee).bind fun w₁ f f' hw₁ hf => ?_
      refine (ih.evalAll (hsited.mono hw₁) hargs).bind fun w₂ vs vs' hw₂ hvs => ?_
      rw [← hvs.length_eq]
      refine (agree_checkCall _ (hf.mono hw₂) vs.length).bind fun w₃ _ _ hw₃ harity => ?_
      exact ih.invoke _ ((hf.mono hw₂).mono hw₃) (thins_mono_all hw₃ hvs) harity
  | get hobject =>
      simp only [Eval.eval]
      refine (ih.eval hsited hobject).bind fun w₁ v v' hw₁ hv => ?_
      cases hv with
      | object hcls => exact agree_property _ hcls _
      | _ => exact .fault
  | set hobject hvalue =>
      simp only [Eval.eval]
      refine (ih.eval hsited hobject).bind fun w₁ v v' hw₁ hv => ?_
      cases hv with
      | object hcls =>
          dsimp only
          refine (ih.eval (hsited.mono hw₁) hvalue).bind fun w₂ u u' hw₂ hu => ?_
          exact (agree_setField _ _ hu).bind fun w₃ _ _ hw₃ _ => .pure (hu.mono hw₃)
      | _ => exact .fault
  | self hid =>
      simp only [Eval.eval]
      exact agree_lookUp hsited hid _
  | super hid =>
      simp only [Eval.eval]
      exact agree_superMethod hsited hid _

theorem evalAll_succ (ih : EvaluationsAgree early late n n') (hsited : T.Sited w gaps env env')
    {es es' : List Expr} (h : ArgumentsThin T gaps es es') :
    Agree early late (fun w' => List.Forall₂ (Value.Thins w')) w (Eval.evalAll (n + 1) env es)
      (Eval.evalAll (n' + 1) env' es') := by
  cases h with
  | nil =>
      simp only [Eval.evalAll]
      exact .pure .nil
  | cons hfirst hmore =>
      simp only [Eval.evalAll]
      refine (ih.eval hsited hfirst).bind fun w₁ v v' hw₁ hv => ?_
      refine (ih.evalAll (hsited.mono hw₁) hmore).bind fun w₂ vs vs' hw₂ hvs => ?_
      exact .pure (.cons (hv.mono hw₂) hvs)

theorem execAll_succ (ih : EvaluationsAgree early late n n') :
    RunsAgree early late (Eval.execAll (n + 1)) (Eval.execAll (n' + 1)) := by
  intro w T gaps env env' ss ss' hsited h
  cases h with
  | nil =>
      simp only [Eval.execAll]
      exact .pure .normal
  | cons hfirst hmore =>
      simp only [Eval.execAll]
      refine (ih.exec hsited hfirst).bind fun w₁ r r' hw₁ hr => ?_
      cases hr with
      | normal => exact ih.execAll (hsited.mono hw₁) hmore
      | returned hv => exact .pure (.returned hv)

theorem exec_cond (ih : EvaluationsAgree early late n n') (hsited : T.Sited w gaps env env')
    {e e' : Expr} {yes yes' : Stmt} {no no' : Option Stmt} (hcondition : Expr.Thins T gaps e e')
    (hyes : Stmt.Thins T gaps yes yes') (hno : Option.Rel (Stmt.Thins T gaps) no no') :
    Agree early late (Completion.Thins) w (Eval.exec (n + 1) env (.cond e yes no))
      (Eval.exec (n' + 1) env' (.cond e' yes' no')) := by
  simp only [Eval.exec]
  refine (ih.eval hsited hcondition).bind fun w₁ v v' hw₁ hv => ?_
  rw [hv.isTruthy_eq]
  split
  · exact ih.exec (hsited.mono hw₁) hyes
  · cases hno with
    | none => exact .pure .normal
    | some hno => exact ih.exec (hsited.mono hw₁) hno

theorem exec_loop (ih : EvaluationsAgree early late n n') (hsited : T.Sited w gaps env env')
    {e e' : Expr} {s s' : Stmt} (hcondition : Expr.Thins T gaps e e')
    (hbody : Stmt.Thins T gaps s s') :
    Agree early late (Completion.Thins) w (Eval.exec (n + 1) env (.loop e s))
      (Eval.exec (n' + 1) env' (.loop e' s')) := by
  simp only [Eval.exec]
  refine (ih.eval hsited hcondition).bind fun w₁ v v' hw₁ hv => ?_
  rw [hv.isTruthy_eq]
  split
  · refine (ih.exec (hsited.mono hw₁) hbody).bind fun w₂ r r' hw₂ hr => ?_
    cases hr with
    | normal => exact ih.exec ((hsited.mono hw₁).mono hw₂) (.loop hcondition hbody)
    | returned hv => exact .pure (.returned hv)
  · exact .pure .normal

theorem exec_succ (ih : EvaluationsAgree early late n n') (hsited : T.Sited w gaps env env')
    {s s' : Stmt} (h : Stmt.Thins T gaps s s') :
    Agree early late (Completion.Thins) w (Eval.exec (n + 1) env s)
      (Eval.exec (n' + 1) env' s') := by
  cases h with
  | expression h =>
      simp only [Eval.exec]
      exact (ih.eval hsited h).bind fun _ _ _ _ _ => .pure .normal
  | print h =>
      simp only [Eval.exec]
      refine (ih.eval hsited h).bind fun w₁ v v' _ hv => ?_
      rw [hv.looksLike.display]
      exact (agree_printLine _).bind fun _ _ _ _ _ => .pure .normal
  | var =>
      simp only [Eval.exec]
      exact (agree_define hsited.env _ .nil).bind fun _ _ _ _ _ => .pure .normal
  | initialised h =>
      simp only [Eval.exec]
      refine (ih.eval hsited h).bind fun w₁ v v' hw₁ hv => ?_
      exact (agree_define (hsited.env.mono hw₁) _ hv).bind fun _ _ _ _ _ => .pure .normal
  | block h =>
      simp only [Eval.exec]
      exact (agree_enter hsited.env).bind fun w₁ e e' hw₁ he =>
        ih.execAll ⟨hw₁.knows hsited.known, he⟩ h
  | ifOnly hcondition hyes => exact ih.exec_cond hsited hcondition hyes .none
  | ifElse hcondition hyes hno => exact ih.exec_cond hsited hcondition hyes (.some hno)
  | loop hcondition hbody => exact ih.exec_loop hsited hcondition hbody
  | function h =>
      simp only [Eval.exec]
      rw [h.name_eq]
      refine (agree_newClosure hsited h fun _ => ⟨_, rfl⟩).bind fun w₁ f f' hw₁ hf => ?_
      exact (agree_define (hsited.env.mono hw₁) _ (.closure hf.1)).bind fun _ _ _ _ _ => .pure .normal
  | ret =>
      simp only [Eval.exec]
      exact .pure (.returned .nil)
  | returned h =>
      simp only [Eval.exec]
      exact (ih.eval hsited h).bind fun _ _ _ _ hv => .pure (.returned hv)
  | classDecl hbase hdecls =>
      simp only [Eval.exec]
      exact (agree_declareClass hsited _ hbase hdecls).bind fun _ _ _ _ _ => .pure .normal

theorem invoke_succ (ih : EvaluationsAgree early late n n') (site : Token) {v v' : Value}
    (hv : Value.Thins w v v') {args args' : List Value}
    (hargs : List.Forall₂ (Value.Thins w) args args') (harity : v.arity? = some args.length) :
    Agree early late (Value.Thins) w (Eval.invoke (n + 1) site v args)
      (Eval.invoke (n' + 1) site v' args') := by
  cases hv with
  | native hi =>
      intro s s' hs
      obtain ⟨native, native', hnative, hnative', hthin⟩ := hs.natives.thin hi
      simp only [Eval.invoke, eval_get_bind_apply, hnative, hnative']
      cases hthin with
      | clock => exact agree_readClock s s' hs
      | readLine => exact agree_readLine s s' hs
      | host hbody =>
          have hlength := (Option.some.inj harity).symm
          have haction := hbody w (args.map .ofValue) (args'.map .ofValue) (Layout.le_refl w)
            (by rw [List.length_map, hlength]) (formsThin_ofValues hargs)
          exact ih.perform haction s s' hs
  | closure hf =>
      simp only [Eval.invoke]
      exact agree_nested site (agree_activate ih.execAll hf hargs)
  | classObject hcls =>
      simp only [Eval.invoke]
      exact agree_nested site (agree_instantiate ih.execAll hcls hargs)
  | _ => cases harity

theorem proceeds (ih : EvaluationsAgree early late n n') :
    ProceedsAgree early late (Eval.eval n) (Eval.eval n') (Eval.execAll n) (Eval.execAll n')
      (Eval.invoke n) (Eval.invoke n') :=
  ⟨ih.eval, ih.execAll, fun site => ih.invoke site⟩

theorem perform_succ (ih : EvaluationsAgree early late n n') {a a' : HostAction}
    (h : HostAction.Follows .outward w.view a a') :
    Agree early late (Value.Thins) w (Eval.perform (n + 1) a) (Eval.perform (n' + 1) a') := by
  cases h with
  | give ho _ =>
      simp only [Eval.perform]
      exact agree_toValue ho
  | raise he =>
      simp only [Eval.perform]
      rw [he]
      exact .throw
  | raiseHost _ =>
      simp only [Eval.perform]
      exact .throw
  | ask _ hstep hnext =>
      simp only [Eval.perform]
      refine (agree_take ih.proceeds hstep).attempt.bind fun w₁ r r' hw₁ hr => ?_
      exact ih.perform (hnext w₁.view (HostRules.view_thins w₁) (Layout.view_mono hw₁) r r' hr
        False.elim)
  | recollect hnext =>
      simp only [Eval.perform]
      refine .get fun s s' hs => ?_
      exact ih.perform (hnext w.view (HostRules.view_thins w) (View.le_refl _) _ _ hs.memory)
  | keep hfs h =>
      simp only [Eval.perform]
      refine (agree_keep hfs).bind fun w₁ _ _ hw₁ _ => ?_
      exact ih.perform (h.mono (Layout.view_mono hw₁))

end EvaluationsAgree

/-! ## Any number of steps -/

section

variable {early late : Prop} {w : Layout}

theorem agree_spent {α β : Type} {R : Layout → α → β → Prop} :
    Agree early late R w (throw .outOfFuel : Eval α) (throw .outOfFuel : Eval β) :=
  fun _ _ hs => .error w.later_refl hs .same

theorem agree_early {α β : Type} {R : Layout → α → β → Prop} {y : Eval β} (h : early) :
    Agree early late R w (throw .outOfFuel : Eval α) y :=
  fun _ _ _ => .early h

theorem agree_late {α β : Type} {R : Layout → α → β → Prop} {x : Eval α} (h : late) :
    Agree early late R w x (throw .outOfFuel : Eval β) :=
  fun _ _ _ => .late h

/-- Evaluations of twins agree, whatever the numbers of steps.  The one that is given fewer steps may
run out of them first. -/
theorem evaluationsAgree {n n' : Nat} (hearly : early ∨ n' ≤ n) (hlate : late ∨ n ≤ n') :
    EvaluationsAgree early late n n' := by
  -- Both numbers of steps go down together; where one is used up before the other, only that side
  -- stops.
  induction n generalizing n' with
  | zero =>
      cases n' with
      | zero =>
          exact ⟨fun _ _ => agree_spent, fun _ _ => agree_spent, fun _ _ => agree_spent,
            fun _ _ => agree_spent, fun _ _ _ _ => agree_spent, fun _ => agree_spent⟩
      | succ n' =>
          have hearly : early := hearly.resolve_right (Nat.not_succ_le_zero n')
          exact ⟨fun _ _ => agree_early hearly, fun _ _ => agree_early hearly,
            fun _ _ => agree_early hearly, fun _ _ => agree_early hearly,
            fun _ _ _ _ => agree_early hearly, fun _ => agree_early hearly⟩
  | succ n ih =>
      cases n' with
      | zero =>
          have hlate : late := hlate.resolve_right (Nat.not_succ_le_zero n)
          exact ⟨fun _ _ => agree_late hlate, fun _ _ => agree_late hlate, fun _ _ => agree_late hlate,
            fun _ _ => agree_late hlate, fun _ _ _ _ => agree_late hlate,
            fun _ => agree_late hlate⟩
      | succ n' =>
          have hprev : EvaluationsAgree early late n n' :=
            ih (hearly.imp_right Nat.le_of_succ_le_succ) (hlate.imp_right Nat.le_of_succ_le_succ)
          exact ⟨fun hsited h => hprev.eval_succ hsited h, fun hsited h => hprev.evalAll_succ hsited h,
            fun hsited h => hprev.exec_succ hsited h, hprev.execAll_succ,
            fun site hv hargs harity => hprev.invoke_succ site hv hargs harity,
            hprev.perform_succ⟩

end

end Lox
