import Lox.Proofs.Soundness.Visit

/-!
# Where evaluations take place

Every evaluation of a step is of code that belongs into its environment, or of a call of a value with
as many arguments as it takes.  One evaluation that calls another hands this on.
-/

namespace Lox

section

variable (ℓ : Likeness) (w : World)

/-- What can be evaluated in a world without getting stuck. -/
inductive Task.Placed : Task → Prop where
  | eval : Sited w code c σ ρs env (.expr e) → Expr.Alike ℓ code ρs e e →
      Task.Placed (.eval env e)
  | evalAll : Sited w code c σ ρs env (.exprs es) → ArgumentsAlike ℓ code ρs es es →
      Task.Placed (.evalAll env es)
  | exec : Sited w code c σ ρs env (.stmt st) → Stmt.Alike ℓ code ρs st st →
      Task.Placed (.exec env st)
  | execAll : Sited w code c σ ρs env (.body ss) → BodyAlike ℓ code ρs ss ss →
      Task.Placed (.execAll env ss)
  | invoke : ℓ.token own site site → Value.Alike ℓ w f f → List.Forall₂ (Value.Alike ℓ w) vs vs →
      f.arity? = some vs.length → Task.Placed (.invoke site f vs)
  | perform : HostAction.Alike ℓ w a a → Task.Placed (.perform a)

/-- A task and a session in which it can be evaluated. -/
def Task.Stands (task : Task) (s : Session) : Prop :=
  ∃ w', w ≤ w' ∧ Session.Alike ℓ w' s s ∧ task.Placed ℓ w'

end

variable {ℓ : Likeness} {w : World}

theorem Task.Placed.stands {task : Task} {s : Session} (hs : Session.Alike ℓ w s s)
    (h : task.Placed ℓ w) : task.Stands ℓ w s :=
  ⟨w, World.le_refl w, hs, h⟩

theorem Task.Stands.earlier {task : Task} {s : Session} {w' : World} (hw : w ≤ w')
    (h : task.Stands ℓ w' s) : task.Stands ℓ w s := by
  obtain ⟨w'', hw', hs, hplaced⟩ := h
  exact ⟨w'', World.le_trans hw hw', hs, hplaced⟩

theorem Simulates.done {α : Type} {R : World → α → α → Prop} {x : Eval α} {s s₁ : Session} {a : α}
    (h : Simulates ℓ True R w x x) (hs : Session.Alike ℓ w s s) (hx : x s = .ok a s₁) :
    ∃ w₁, w.Later ℓ w₁ ∧ Session.Alike ℓ w₁ s₁ s₁ ∧ R w₁ a a := by
  have hout := h s s hs
  rw [hx] at hout
  cases hout with
  | ok hw hs₁ hR => exact ⟨_, hw, hs₁, hR⟩

theorem Tries.done {α : Type} {R : World → α → α → Prop} {x : Eval α} {s s₁ : Session} {a : α}
    (h : Tries ℓ True R w x x) (hs : Session.Alike ℓ w s s) (hx : x s = .ok a s₁) :
    ∃ w₁, w.Later ℓ w₁ ∧ Session.Alike ℓ w₁ s₁ s₁ ∧ R w₁ a a := by
  obtain ⟨w₁, hw₁, hs₁, hended⟩ := Simulates.done h hs (Eval.attempt_ok hx)
  cases hended with
  | ok hR => exact ⟨w₁, hw₁, hs₁, hR⟩

theorem simulates_openInitializer {cls : Class} (hcls : Class.Alike ℓ w cls cls) {method : Closure}
    (hmethod : cls.initializer? = some method) {vs : List Value}
    (hvs : List.Forall₂ (Value.Alike ℓ w) vs vs) (hcount : vs.length = cls.arity) :
    Simulates ℓ True
      (fun w' env env' => env' = env ∧ BodiesPlaced ℓ w' env method.decl.body method.decl.body) w
      (Eval.openInitializer cls method vs) (Eval.openInitializer cls method vs) := by
  have hf : Closure.MethodAlike ℓ w method method := by
    rcases option_rel_cases (hcls.findMethod? initializerName) with
      ⟨hnone, -⟩ | ⟨f, f', hfound, hfound', halike⟩
    · cases hmethod.symm.trans hnone
    · cases hmethod.symm.trans hfound
      cases hmethod.symm.trans hfound'
      exact halike
  have hcount : vs.length = method.decl.arity := by rw [hcount, Class.arity, hmethod]
  refine (simulates_newInstance hcls).bind fun w₁ v v' hw₁ ⟨hv, i, hi⟩ => ?_
  subst hi
  obtain ⟨home, hinherits, hmem⟩ := Class.home_of_findMethod? hmethod
  have hbind : Simulates ℓ True _ w₁ _ _ :=
    simulates_bindThis (hf.mono hw₁) hv hinherits hmem
  refine hbind.bind fun w₂ g g' hw₂ ⟨hg, hdecl, hdecl'⟩ => ?_
  rw [← hdecl] at hcount
  have hopen : Simulates ℓ True _ w₂ _ _ :=
    simulates_open hg (hvs.imp fun _ _ h => (h.mono hw₁).mono hw₂) hcount
  rwa [hdecl, hdecl'] at hopen

theorem stands_program {s : Session} {text : String} (hs : Session.Alike ℓ w s s)
    (h : (compile text s.nextNode).problems = [])
    (hgenuine : ℓ.genuine false (.body (compile text s.nextNode).statements)) :
    Task.Stands ℓ w (.execAll Session.globals (compile text s.nextNode).statements)
      (s.ready text) := by
  have hready : Session.Alike ℓ (w.reset.accept (Code.ofProgram false h 0)) (s.ready text)
      (s.ready text) :=
    hs.beginRun.acceptProgram_self h hgenuine
  have hsited : Sited (w.reset.accept (Code.ofProgram false h 0)) (Code.ofProgram false h 0) {} [] []
      Session.globals (.body (compile text s.nextNode).statements) :=
    .root (.inl rfl) hready.frames.globals hready.frames.free_globals
  exact ⟨_, World.le_trans (World.le_reset w) (World.le_accept _), hready,
    .execAll hsited (Code.bodyAlike_self h (ℓ.token_self hgenuine))⟩

theorem Starts.stands {step : Step} {s s' : Session} {task : Task} (hs : Session.Alike ℓ w s s)
    (hgenuine : ∀ {part}, step.Compiles s.nextNode part → ℓ.genuine false part)
    (hstep : Step.Alike ℓ w step step) (h : Starts step s task s') : task.Stands ℓ w s' := by
  cases h with
  | run hnone => exact stands_program hs hnone (hgenuine (.run hnone))
  | execute hnone => exact stands_program hs hnone (hgenuine (.execute hnone))
  | evaluate htree =>
      have haccepted := hs.acceptExpression_self htree (hgenuine (.evaluate htree))
      have hsited : Sited (w.accept (Code.ofExpression htree 0)) (Code.ofExpression htree 0) {} [] []
          Session.globals (.expr _) :=
        .root (.inl rfl) haccepted.frames.globals haccepted.frames.free_globals
      exact ⟨_, World.le_accept _, haccepted, .eval hsited (Code.exprAlike_self htree (hgenuine (.evaluate htree)))⟩
  | call hvs =>
      cases hstep with
      | call hcallee harguments =>
          cases hcallee with
          | wrapper hf =>
              obtain ⟨w₁, hw₁, hs₁, hvs₁, harity⟩ := (tries_hostArguments hf harguments).done hs hvs
              exact ⟨w₁, hw₁.le, hs₁, .invoke ℓ.token_site (hf.mono hw₁.le) hvs₁ harity⟩

/-! ## One evaluation calls another -/

section

variable {n : Nat} {s : Session} {code : Code} {c : Context} {σ : Scopes}
  {ρs : List (String → String)} {env : Environment} {task : Task} {s' : Session}

theorem Calls.stands_eval {e : Expr} (h : Calls n (.eval env e) s task s')
    (hs : Session.Alike ℓ w s s) (hsited : Sited w code c σ ρs env (.expr e))
    (halike : Expr.Alike ℓ code ρs e e) : task.Stands ℓ w s' := by
  have done : ∀ {e₁ : Expr} {v : Value} {s₁ : Session}, Sited w code c σ ρs env (.expr e₁) →
      Expr.Alike ℓ code ρs e₁ e₁ → Eval.eval n env e₁ s = .ok v s₁ →
      ∃ w₁, w.Later ℓ w₁ ∧ Session.Alike ℓ w₁ s₁ s₁ ∧ Value.Alike ℓ w₁ v v :=
    fun hsited₁ halike₁ hv => ((evaluatesAlike_same n).eval hsited₁ halike₁).done hs hv
  cases h with
  | grouping =>
      cases halike with
      | grouping _ h => exact (Task.Placed.eval hsited.grouping h).stands hs
  | unary =>
      cases halike with
      | unary _ _ h => exact (Task.Placed.eval hsited.unary h).stands hs
  | binaryLeft =>
      cases halike with
      | binary _ hleft _ _ =>
          exact (Task.Placed.eval hsited.binaryLeft hleft).stands hs
  | binaryRight hv =>
      cases halike with
      | binary _ hleft _ hright =>
          obtain ⟨w₁, hw₁, hs₁, -⟩ := done hsited.binaryLeft hleft hv
          exact ⟨w₁, hw₁.le, hs₁, .eval (hsited.binaryRight.mono hw₁.le) hright⟩
  | logicalLeft =>
      cases halike with
      | logical _ hleft _ _ =>
          exact (Task.Placed.eval hsited.logicalLeft hleft).stands hs
  | logicalRight hv _ =>
      cases halike with
      | logical _ hleft _ hright =>
          obtain ⟨w₁, hw₁, hs₁, -⟩ := done hsited.logicalLeft hleft hv
          exact ⟨w₁, hw₁.le, hs₁, .eval (hsited.logicalRight.mono hw₁.le) hright⟩
  | assigned => exact (Task.Placed.eval hsited.assigned halike.assigned).stands hs
  | callee =>
      cases halike with
      | call _ hcallee _ _ =>
          exact (Task.Placed.eval hsited.callee hcallee).stands hs
  | arguments hf =>
      cases halike with
      | call _ hcallee _ hargs =>
          obtain ⟨w₁, hw₁, hs₁, -⟩ := done hsited.callee hcallee hf
          exact ⟨w₁, hw₁.le, hs₁, .evalAll (hsited.arguments.mono hw₁.le) hargs⟩
  | call hf hvs harity =>
      cases halike with
      | call _ hcallee hsite hargs =>
          obtain ⟨w₁, hw₁, hs₁, hf₁⟩ := done hsited.callee hcallee hf
          obtain ⟨w₂, hw₂, hs₂, hvs₂⟩ := ((evaluatesAlike_same n).evalAll (hsited.arguments.mono hw₁.le) hargs).done hs₁ hvs
          exact ⟨w₂, World.le_trans hw₁.le hw₂.le, hs₂,
            .invoke hsite (hf₁.mono hw₂.le) hvs₂ harity⟩
  | getObject =>
      cases halike with
      | get _ h _ => exact (Task.Placed.eval hsited.getObject h).stands hs
  | setObject =>
      cases halike with
      | set _ h _ _ => exact (Task.Placed.eval hsited.setObject h).stands hs
  | setValue hv =>
      cases halike with
      | set _ hobject _ hvalue =>
          obtain ⟨w₁, hw₁, hs₁, -⟩ := done hsited.setObject hobject hv
          exact ⟨w₁, hw₁.le, hs₁, .eval (hsited.setValue.mono hw₁.le) hvalue⟩

theorem Calls.stands_evalAll {es : List Expr} (h : Calls n (.evalAll env es) s task s')
    (hs : Session.Alike ℓ w s s) (hsited : Sited w code c σ ρs env (.exprs es))
    (halike : ArgumentsAlike ℓ code ρs es es) : task.Stands ℓ w s' := by
  cases h with
  | firstArgument =>
      cases halike with
      | cons h _ => exact (Task.Placed.eval hsited.firstArgument h).stands hs
  | moreArguments hv =>
      cases halike with
      | cons h hmore =>
          obtain ⟨w₁, hw₁, hs₁, -⟩ :=
            ((evaluatesAlike_same n).eval hsited.firstArgument h).done hs hv
          exact ⟨w₁, hw₁.le, hs₁, .evalAll (hsited.moreArguments.mono hw₁.le) hmore⟩

theorem Calls.stands_exec {st : Stmt} (h : Calls n (.exec env st) s task s')
    (hs : Session.Alike ℓ w s s) (hsited : Sited w code c σ ρs env (.stmt st))
    (halike : Stmt.Alike ℓ code ρs st st) : task.Stands ℓ w s' := by
  have hformed : st.Formed := hsited.checked.formed
  have hopen : σ.Open := hsited.checked.placed.1.open
  have done : ∀ {e : Expr} {v : Value} {s₁ : Session}, Sited w code c σ ρs env (.expr e) →
      Expr.Alike ℓ code ρs e e → Eval.eval n env e s = .ok v s₁ →
      ∃ w₁, w.Later ℓ w₁ ∧ Session.Alike ℓ w₁ s₁ s₁ ∧ Value.Alike ℓ w₁ v v :=
    fun hsited₁ halike₁ hv => ((evaluatesAlike_same n).eval hsited₁ halike₁).done hs hv
  cases h with
  | expression =>
      cases halike with
      | expression h => exact (Task.Placed.eval hsited.expression h).stands hs
  | print =>
      cases halike with
      | print h => exact (Task.Placed.eval hsited.print h).stands hs
  | initial =>
      cases halike with
      | initialised _ _ h =>
          have hinitial := hsited.initial (hsited.covers.declare hopen hformed.1)
          exact (Task.Placed.eval hinitial h).stands hs
  | block henter =>
      cases halike with
      | block hρ h =>
          obtain ⟨w₁, hw₁, hs₁, -, hentered⟩ := (simulates_enter hsited.covers hρ).done hs henter
          exact ⟨w₁, hw₁.le, hs₁, .execAll ((hsited.mono hw₁.le).block hentered) h⟩
  | condition =>
      exact (Task.Placed.eval hsited.condition halike.cond.1).stands hs
  | yes hv _ =>
      obtain ⟨hcondition, hyes⟩ := halike.cond
      obtain ⟨w₁, hw₁, hs₁, -⟩ := done hsited.condition hcondition hv
      exact ⟨w₁, hw₁.le, hs₁, .exec (hsited.yes.mono hw₁.le) hyes⟩
  | no hv _ =>
      cases halike with
      | ifElse hcondition _ hno =>
          obtain ⟨w₁, hw₁, hs₁, -⟩ := done hsited.condition hcondition hv
          exact ⟨w₁, hw₁.le, hs₁, .exec (hsited.no.mono hw₁.le) hno⟩
  | loopCondition =>
      cases halike with
      | loop h _ => exact (Task.Placed.eval hsited.loopCondition h).stands hs
  | loopBody hv _ =>
      cases halike with
      | loop hcondition hbody =>
          obtain ⟨w₁, hw₁, hs₁, -⟩ := done hsited.loopCondition hcondition hv
          exact ⟨w₁, hw₁.le, hs₁, .exec (hsited.loopBody.mono hw₁.le) hbody⟩
  | loopAgain hv _ hround =>
      cases halike with
      | loop hcondition hbody =>
          obtain ⟨w₁, hw₁, hs₁, -⟩ := done hsited.loopCondition hcondition hv
          obtain ⟨w₂, hw₂, hs₂, -⟩ := ((evaluatesAlike_same n).exec (hsited.loopBody.mono hw₁.le) hbody).done hs₁ hround
          have hw := World.le_trans hw₁.le hw₂.le
          exact ⟨w₂, hw, hs₂, .exec (hsited.mono hw) (.loop hcondition hbody)⟩
  | returned =>
      cases halike with
      | returned _ h => exact (Task.Placed.eval hsited.returned h).stands hs

theorem Calls.stands_execAll {ss : List Stmt} (h : Calls n (.execAll env ss) s task s')
    (hs : Session.Alike ℓ w s s) (hsited : Sited w code c σ ρs env (.body ss))
    (halike : BodyAlike ℓ code ρs ss ss) : task.Stands ℓ w s' := by
  cases h with
  | firstStmt =>
      cases halike with
      | cons h _ => exact (Task.Placed.exec hsited.firstStmt h).stands hs
  | moreStmts hdone =>
      cases halike with
      | cons h hmore =>
          obtain ⟨w₁, hw₁, hs₁, hend⟩ :=
            ((evaluatesAlike_same n).exec hsited.firstStmt h).done hs hdone
          cases hend with
          | normal hcovers₁ =>
              have hsited₁ := (hsited.mono hw₁.le).moreStmts hcovers₁
              exact ⟨w₁, hw₁.le, hs₁, .execAll hsited₁ hmore⟩

theorem Calls.stands_invoke {site : Token} {f : Value} {vs : List Value}
    (h : Calls n (.invoke site f vs) s task s') (hs : Session.Alike ℓ w s s)
    (hf : Value.Alike ℓ w f f) (hvs : List.Forall₂ (Value.Alike ℓ w) vs vs)
    (harity : f.arity? = some vs.length) : task.Stands ℓ w s' := by
  have hdeeper : Session.Alike ℓ w s.deeper s.deeper := { hs with depth := rfl }
  cases h with
  | native hnative =>
      cases hf with
      | native hi =>
          obtain ⟨native, native', hn, hn', halike⟩ := hs.natives.alike hi
          cases hnative.symm.trans hn
          cases hnative.symm.trans hn'
          cases halike with
          | host hbody =>
              have haction := HostAction.alike_body hbody (Option.some.inj harity).symm hvs
              exact (Task.Placed.perform haction).stands hs
  | function _ hopen =>
      cases hf with
      | closure hf =>
          obtain ⟨w₁, hw₁, hs₁, -, code, c, σ, ρs, -, hsited, hbody⟩ :=
            (simulates_open hf hvs (Option.some.inj harity).symm).done hdeeper hopen
          exact ⟨w₁, hw₁.le, hs₁, .execAll hsited hbody⟩
  | initializer _ hmethod hopen =>
      cases hf with
      | classObject hcls =>
          obtain ⟨w₁, hw₁, hs₁, -, code, c, σ, ρs, -, hsited, hbody⟩ :=
            (simulates_openInitializer hcls hmethod hvs (Option.some.inj harity).symm).done hdeeper
              hopen
          exact ⟨w₁, hw₁.le, hs₁, .execAll hsited hbody⟩

theorem Calls.stands_perform {action : HostAction} (h : Calls n (.perform action) s task s')
    (hs : Session.Alike ℓ w s s) (haction : HostAction.Alike ℓ w action action) :
    task.Stands ℓ w s' := by
  cases h with
  | asked hstarts =>
      cases haction with
      | ask hallowed hstep _ => exact hstarts.stands hs (ℓ.genuine_of_allowed hallowed) hstep
  | answered hanswer =>
      cases haction with
      | ask hallowed hstep hnext =>
          obtain ⟨w₁, hw₁, hs₁, hended, hstrict⟩ :=
            (simulates_attempt_take (evaluatesAlike_same n).proceeds hallowed hstep).done hs hanswer
          exact ⟨w₁, hw₁.le, hs₁, .perform (hnext w₁ _ _ hw₁.le hended hstrict)⟩
  | recalled =>
      cases haction with
      | recollect hnext =>
          have hforms := hnext w _ _ (World.le_refl w) hs.memory
          exact (Task.Placed.perform hforms).stands hs
  | kept =>
      cases haction with
      | keep hfs ha => exact (Task.Placed.perform ha).stands { hs with memory := hfs }

/-- An evaluation hands on to those that it calls that they cannot get stuck. -/
theorem Calls.stands {task₁ : Task} (h : Calls n task₁ s task s') (h₁ : task₁.Stands ℓ w s) :
    task.Stands ℓ w s' := by
  obtain ⟨w₁, hw₁, hs, hplaced⟩ := h₁
  refine Task.Stands.earlier hw₁ ?_
  cases hplaced with
  | eval hsited halike => exact h.stands_eval hs hsited halike
  | evalAll hsited halike => exact h.stands_evalAll hs hsited halike
  | exec hsited halike => exact h.stands_exec hs hsited halike
  | execAll hsited halike => exact h.stands_execAll hs hsited halike
  | invoke _ hf hvs harity => exact h.stands_invoke hs hf hvs harity
  | perform haction => exact h.stands_perform hs haction

end

/-! ## The evaluations of a step -/

section

variable {s s' : Session} {step : Step} {fuel n : Nat} {task : Task}

theorem Visits.stands (hs : Session.Alike ℓ w s s)
    (hgenuine : ∀ {part}, step.Compiles s.nextNode part → ℓ.genuine false part)
    (hstep : Step.Alike ℓ w step step) (h : Visits step fuel s n task s') : task.Stands ℓ w s' := by
  induction h with
  | starts hstarts => exact hstarts.stands hs hgenuine hstep
  | calls _ hcalls ih => exact hcalls.stands ih

end

end Lox
