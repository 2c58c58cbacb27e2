import Lox.Proofs.Soundness.Visit
import Lox.Proofs.Thinning.History

/-!
# The evaluations of a step and what they leave in place

Whenever a step of a history comes to an evaluation, the session is related to itself with no frame
left out, and so is what is evaluated.  One evaluation that calls another hands this on.
-/

namespace Lox

/-! ## What stays as it is -/

/-- A session that is related to itself, with no frame left out. -/
structure Session.Whole (w : Layout) (s : Session) : Prop where
  whole : w.whole
  thins : Session.Thins w s s

section

variable (w : Layout)

inductive Task.Thins : Task → Prop where
  | eval : Twin.Sited T w gaps env env → Expr.Thins T gaps e e → Task.Thins (.eval env e)
  | evalAll : Twin.Sited T w gaps env env → ArgumentsThin T gaps es es →
      Task.Thins (.evalAll env es)
  | exec : Twin.Sited T w gaps env env → Stmt.Thins T gaps st st → Task.Thins (.exec env st)
  | execAll : Twin.Sited T w gaps env env → BodyThins T gaps ss ss → Task.Thins (.execAll env ss)
  | invoke : Value.Thins w f f → List.Forall₂ (Value.Thins w) vs vs → f.arity? = some vs.length →
      Task.Thins (.invoke site f vs)
  | perform : HostAction.Follows .outward w.view action action →
      Task.Thins (.perform action)

end

def Task.Stays (task : Task) (s : Session) : Prop :=
  ∃ w, Session.Whole w s ∧ task.Thins w

variable {w : Layout} {s s' s₁ : Session}

theorem Agree.done {α : Type} {R : Layout → α → α → Prop} {x : Eval α} {a : α}
    (h : Agree False False R w x x) (hs : Session.Whole w s) (hx : x s = .ok a s₁) :
    ∃ w₁, w ≤ w₁ ∧ Session.Whole w₁ s₁ ∧ R w₁ a a := by
  have hend := h s s hs.thins
  rw [hx] at hend
  cases hend with
  | ok hw hs₁ hR => exact ⟨_, hw.le, ⟨hw.whole.symm ▸ hs.whole, hs₁⟩, hR⟩

theorem agree_openInitializer {cls : Class} (hcls : Class.Thins w cls cls) {method : Closure}
    (hmethod : cls.initializer? = some method) {vs : List Value}
    (hvs : List.Forall₂ (Value.Thins w) vs vs) :
    Agree False False
      (fun w' env env' => ∃ (T : Twin) (gaps : Gaps), T.Sited w' gaps env env' ∧
        BodyThins T gaps method.decl.body method.decl.body) w
      (Eval.openInitializer cls method vs) (Eval.openInitializer cls method vs) := by
  have hf : Closure.MethodThins w method method := by
    rcases option_rel_cases (hcls.findMethod? initializerName) with
      ⟨hnone, -⟩ | ⟨f, f', hfound, hfound', hthin⟩
    · cases hmethod.symm.trans hnone
    · cases hmethod.symm.trans hfound
      cases hmethod.symm.trans hfound'
      exact hthin
  refine (agree_newInstance hcls).bind fun w₁ v v' hw₁ hv => ?_
  refine (agree_bindThis (hf.mono hw₁) hv).bind fun w₂ g g' hw₂ ⟨hg, hdecl, hdecl'⟩ => ?_
  have hopen : Agree False False _ w₂ _ _ :=
    agree_open hg (thins_mono_all hw₂ (thins_mono_all hw₁ hvs))
  rwa [hdecl, hdecl'] at hopen

theorem Expr.Thins.assigned {T : Twin} {gaps : Gaps} {id id' : NodeId} {name name' : Token}
    {e e' : Expr} (h : Expr.Thins T gaps (.assign id name e) (.assign id' name' e')) :
    Expr.Thins T gaps e e' := by
  cases h with
  | assign _ h => exact h

theorem Stmt.Thins.cond {T : Twin} {gaps : Gaps} {e e' : Expr} {yes yes' : Stmt}
    {no no' : Option Stmt} (h : Stmt.Thins T gaps (.cond e yes no) (.cond e' yes' no')) :
    Expr.Thins T gaps e e' ∧ Stmt.Thins T gaps yes yes' := by
  cases h with
  | ifOnly hcondition hyes => exact ⟨hcondition, hyes⟩
  | ifElse hcondition hyes _ => exact ⟨hcondition, hyes⟩

/-! ## One evaluation calls another -/

section

variable {n : Nat} {T : Twin} {gaps : Gaps} {env : Environment} {task : Task}

theorem Calls.stays_eval {e : Expr} (h : Calls n (.eval env e) s task s')
    (hs : Session.Whole w s) (hsited : T.Sited w gaps env env) (hthin : Expr.Thins T gaps e e) :
    task.Stays s' := by
  have done : ∀ {e₁ : Expr} {v : Value} {s₁ : Session}, Expr.Thins T gaps e₁ e₁ →
      Eval.eval n env e₁ s = .ok v s₁ →
      ∃ w₁, w ≤ w₁ ∧ Session.Whole w₁ s₁ ∧ Value.Thins w₁ v v :=
    fun hthin₁ hv => ((evaluationsAgree_same n).eval hsited hthin₁).done hs hv
  cases h with
  | grouping =>
      cases hthin with
      | grouping h => exact ⟨w, hs, .eval hsited h⟩
  | unary =>
      cases hthin with
      | unary h => exact ⟨w, hs, .eval hsited h⟩
  | binaryLeft =>
      cases hthin with
      | binary hleft _ => exact ⟨w, hs, .eval hsited hleft⟩
  | binaryRight hv =>
      cases hthin with
      | binary hleft hright =>
          obtain ⟨w₁, hw₁, hs₁, -⟩ := done hleft hv
          exact ⟨w₁, hs₁, .eval (hsited.mono hw₁) hright⟩
  | logicalLeft =>
      cases hthin with
      | logical hleft _ => exact ⟨w, hs, .eval hsited hleft⟩
  | logicalRight hv _ =>
      cases hthin with
      | logical hleft hright =>
          obtain ⟨w₁, hw₁, hs₁, -⟩ := done hleft hv
          exact ⟨w₁, hs₁, .eval (hsited.mono hw₁) hright⟩
  | assigned => exact ⟨w, hs, .eval hsited hthin.assigned⟩
  | callee =>
      cases hthin with
      | call hcallee _ => exact ⟨w, hs, .eval hsited hcallee⟩
  | arguments hf =>
      cases hthin with
      | call hcallee hargs =>
          obtain ⟨w₁, hw₁, hs₁, -⟩ := done hcallee hf
          exact ⟨w₁, hs₁, .evalAll (hsited.mono hw₁) hargs⟩
  | call hf hvs harity =>
      cases hthin with
      | call hcallee hargs =>
          obtain ⟨w₁, hw₁, hs₁, hf₁⟩ := done hcallee hf
          obtain ⟨w₂, hw₂, hs₂, hvs₂⟩ :=
            ((evaluationsAgree_same n).evalAll (hsited.mono hw₁) hargs).done hs₁ hvs
          exact ⟨w₂, hs₂, .invoke (hf₁.mono hw₂) hvs₂ harity⟩
  | getObject =>
      cases hthin with
      | get h => exact ⟨w, hs, .eval hsited h⟩
  | setObject =>
      cases hthin with
      | set h _ => exact ⟨w, hs, .eval hsited h⟩
  | setValue hv =>
      cases hthin with
      | set hobject hvalue =>
          obtain ⟨w₁, hw₁, hs₁, -⟩ := done hobject hv
          exact ⟨w₁, hs₁, .eval (hsited.mono hw₁) hvalue⟩

theorem Calls.stays_evalAll {es : List Expr} (h : Calls n (.evalAll env es) s task s')
    (hs : Session.Whole w s) (hsited : T.Sited w gaps env env)
    (hthin : ArgumentsThin T gaps es es) : task.Stays s' := by
  cases h with
  | firstArgument =>
      cases hthin with
      | cons h _ => exact ⟨w, hs, .eval hsited h⟩
  | moreArguments hv =>
      cases hthin with
      | cons h hmore =>
          obtain ⟨w₁, hw₁, hs₁, -⟩ := ((evaluationsAgree_same n).eval hsited h).done hs hv
          exact ⟨w₁, hs₁, .evalAll (hsited.mono hw₁) hmore⟩

theorem Calls.stays_exec {st : Stmt} (h : Calls n (.exec env st) s task s')
    (hs : Session.Whole w s) (hsited : T.Sited w gaps env env) (hthin : Stmt.Thins T gaps st st) :
    task.Stays s' := by
  have done : ∀ {e : Expr} {v : Value} {s₁ : Session}, Expr.Thins T gaps e e →
      Eval.eval n env e s = .ok v s₁ →
      ∃ w₁, w ≤ w₁ ∧ Session.Whole w₁ s₁ ∧ Value.Thins w₁ v v :=
    fun hthin₁ hv => ((evaluationsAgree_same n).eval hsited hthin₁).done hs hv
  cases h with
  | expression =>
      cases hthin with
      | expression h => exact ⟨w, hs, .eval hsited h⟩
  | print =>
      cases hthin with
      | print h => exact ⟨w, hs, .eval hsited h⟩
  | initial =>
      cases hthin with
      | initialised h => exact ⟨w, hs, .eval hsited h⟩
  | block henter =>
      cases hthin with
      | block h =>
          obtain ⟨w₁, hw₁, hs₁, hentered⟩ := (agree_enter hsited.env).done hs henter
          exact ⟨w₁, hs₁, .execAll ⟨hw₁.knows hsited.known, hentered⟩ h⟩
  | condition => exact ⟨w, hs, .eval hsited hthin.cond.1⟩
  | yes hv _ =>
      obtain ⟨hcondition, hyes⟩ := hthin.cond
      obtain ⟨w₁, hw₁, hs₁, -⟩ := done hcondition hv
      exact ⟨w₁, hs₁, .exec (hsited.mono hw₁) hyes⟩
  | no hv _ =>
      cases hthin with
      | ifElse hcondition _ hno =>
          obtain ⟨w₁, hw₁, hs₁, -⟩ := done hcondition hv
          exact ⟨w₁, hs₁, .exec (hsited.mono hw₁) hno⟩
  | loopCondition =>
      cases hthin with
      | loop h _ => exact ⟨w, hs, .eval hsited h⟩
  | loopBody hv _ =>
      cases hthin with
      | loop hcondition hbody =>
          obtain ⟨w₁, hw₁, hs₁, -⟩ := done hcondition hv
          exact ⟨w₁, hs₁, .exec (hsited.mono hw₁) hbody⟩
  | loopAgain hv _ hround =>
      cases hthin with
      | loop hcondition hbody =>
          obtain ⟨w₁, hw₁, hs₁, -⟩ := done hcondition hv
          obtain ⟨w₂, hw₂, hs₂, -⟩ :=
            ((evaluationsAgree_same n).exec (hsited.mono hw₁) hbody).done hs₁ hround
          exact ⟨w₂, hs₂, .exec ((hsited.mono hw₁).mono hw₂) (.loop hcondition hbody)⟩
  | returned =>
      cases hthin with
      | returned h => exact ⟨w, hs, .eval hsited h⟩

theorem Calls.stays_execAll {ss : List Stmt} (h : Calls n (.execAll env ss) s task s')
    (hs : Session.Whole w s) (hsited : T.Sited w gaps env env) (hthin : BodyThins T gaps ss ss) :
    task.Stays s' := by
  cases h with
  | firstStmt =>
      cases hthin with
      | cons h _ => exact ⟨w, hs, .exec hsited h⟩
  | moreStmts hdone =>
      cases hthin with
      | cons h hmore =>
          obtain ⟨w₁, hw₁, hs₁, -⟩ := ((evaluationsAgree_same n).exec hsited h).done hs hdone
          exact ⟨w₁, hs₁, .execAll (hsited.mono hw₁) hmore⟩

theorem Calls.stays_invoke {site : Token} {f : Value} {vs : List Value}
    (h : Calls n (.invoke site f vs) s task s') (hs : Session.Whole w s) (hf : Value.Thins w f f)
    (hvs : List.Forall₂ (Value.Thins w) vs vs) (harity : f.arity? = some vs.length) :
    task.Stays s' := by
  have hdeeper : Session.Whole w s.deeper := ⟨hs.whole, { hs.thins with depth := rfl }⟩
  cases h with
  | native hnative =>
      cases hf with
      | native hi =>
          obtain ⟨native, native', hn, hn', hthin⟩ := hs.thins.natives.thin hi
          cases hnative.symm.trans hn
          cases hnative.symm.trans hn'
          cases hthin with
          | host hbody =>
              have hlength := (Option.some.inj harity).symm
              exact ⟨w, hs, .perform (hbody w _ _ (Layout.le_refl w)
                (by rw [List.length_map, hlength]) (formsThin_ofValues hvs))⟩
  | function _ hopen =>
      cases hf with
      | closure hf =>
          obtain ⟨w₁, hw₁, hs₁, T, gaps, hsited, hbody⟩ := (agree_open hf hvs).done hdeeper hopen
          exact ⟨w₁, hs₁, .execAll hsited hbody⟩
  | initializer _ hmethod hopen =>
      cases hf with
      | classObject hcls =>
          obtain ⟨w₁, hw₁, hs₁, T, gaps, hsited, hbody⟩ :=
            (agree_openInitializer hcls hmethod hvs).done hdeeper hopen
          exact ⟨w₁, hs₁, .execAll hsited hbody⟩

theorem stays_program {text : String} (hs : Session.Whole w s)
    (hnone : (compile text s.nextNode).problems = []) :
    Task.Stays (.execAll Session.globals (compile text s.nextNode).statements) (s.ready text) := by
  have hready := hs.thins.ready hnone hnone (Nat.add_zero s.nextNode).symm
  have hbody : BodyThins (.ofProgram text s.nextNode 0) [false]
      (compile text s.nextNode).statements (compile text (s.nextNode + 0)).statements :=
    Twin.bodyThins_ofProgram hnone
  exact ⟨w.learn (.ofProgram text s.nextNode 0), ⟨hs.whole, hready⟩,
    .execAll ⟨.inl rfl, .globals _⟩ hbody⟩

theorem Starts.stays {step : Step} (h : Starts step s task s') (hs : Session.Whole w s)
    (hstep : Step.Corresponds .outward w.view step step) : task.Stays s' := by
  cases h with
  | run hnone => exact stays_program hs hnone
  | execute hnone => exact stays_program hs hnone
  | evaluate htree =>
      have hready := hs.thins.readExpression htree (Nat.add_zero s.nextNode).symm
      have hthin : Expr.Thins (.ofExpression _ 0) [false] _ (Expr.moved 0 (fun id => id) _) :=
        Twin.exprThins_ofExpression htree
      rw [Expr.moved_zero] at hthin
      exact ⟨w.learn (.ofExpression _ 0), ⟨hs.whole, hready⟩, .eval ⟨.inl rfl, .globals _⟩ hthin⟩
  | call hvs =>
      cases hstep with
      | call hf hos =>
          cases hf with
          | wrapper hf =>
              obtain ⟨w₁, hw₁, hs₁, hvs₁, harity⟩ := (agree_hostArguments hf hos).done hs hvs
              exact ⟨w₁, hs₁, .invoke (hf.mono hw₁) hvs₁ harity⟩

theorem Calls.stays_perform {action : HostAction} (h : Calls n (.perform action) s task s')
    (hs : Session.Whole w s) (haction : HostAction.Follows .outward w.view action action) :
    task.Stays s' := by
  cases h with
  | asked hstarts =>
      cases haction with
      | ask _ hstep _ => exact hstarts.stays hs hstep
  | answered hr =>
      cases haction with
      | ask _ hstep hnext =>
          have hagree := (agree_stepTake (evaluationsAgree_same n) hstep).attempt
          obtain ⟨w₁, hw₁, hs₁, hr₁⟩ := hagree.done hs hr
          exact ⟨w₁, hs₁, .perform (hnext w₁.view (HostRules.view_thins w₁) (Layout.view_mono hw₁)
            _ _ hr₁ False.elim)⟩
  | recalled =>
      cases haction with
      | recollect hnext =>
          exact ⟨w, hs, .perform (hnext w.view (HostRules.view_thins w) (View.le_refl _) _ _
            hs.thins.memory)⟩
  | kept =>
      cases haction with
      | keep hfs haction =>
          exact ⟨w, ⟨hs.whole, { hs.thins with memory := hfs }⟩, .perform haction⟩

/-- An evaluation hands on to those that it calls that the session is related to itself. -/
theorem Calls.stays {task₁ : Task} (h : Calls n task₁ s task s') (h₁ : task₁.Stays s) :
    task.Stays s' := by
  obtain ⟨w, hs, hthin⟩ := h₁
  cases hthin with
  | eval hsited hthin => exact h.stays_eval hs hsited hthin
  | evalAll hsited hthin => exact h.stays_evalAll hs hsited hthin
  | exec hsited hthin => exact h.stays_exec hs hsited hthin
  | execAll hsited hthin => exact h.stays_execAll hs hsited hthin
  | invoke hf hvs harity => exact h.stays_invoke hs hf hvs harity
  | perform haction => exact h.stays_perform hs haction

end

/-! ## The evaluations of a step -/

section

variable {step : Step} {fuel n : Nat} {task : Task} {known : Value → Prop}

/-- Whenever a step of a history comes to an evaluation, it finds the session related to itself. -/
theorem Visits.stays (hhistory : History .outward s known) (hstep : step.Follows .outward known)
    (h : Visits step fuel s n task s') : task.Stays s' := by
  -- The layout may be another one at each evaluation, so only its existence is carried along.
  induction h with
  | starts hstarts =>
      obtain ⟨w, hwhole, hs, hknown⟩ := hhistory.thins
      exact hstarts.stays ⟨hwhole, hs⟩ (hstep.mono (View.shared_le_thins hknown))
  | calls _ hcalls ih => exact hcalls.stays ih

end

end Lox
