import Lox.Proofs.Simulation.Run

/-!
# Steps of sessions alike

What the host does with sessions alike comes to the same, whether it does so from outside or in the
course of a host function.
-/

namespace Lox

variable {ℓ : Likeness} {lockstep : Prop} {w : World}

section

variable {α β γ δ : Type} {R : World → α → β → Prop} {S : World → γ → δ → Prop} {x : Eval α}
  {y : Eval β} {f : α → γ} {g : β → δ}

theorem Outcome.map {s s' : Session} (hx : Outcome ℓ lockstep R w (x s) (y s'))
    (hf : ∀ {w' a b}, R w' a b → S w' (f a) (g b)) :
    Outcome ℓ lockstep S w ((f <$> x) s) ((g <$> y) s') :=
  hx.bind fun _ _ _ _ hab => .pure (hf hab)

theorem Simulates.map (hx : Simulates ℓ lockstep R w x y)
    (hf : ∀ {w' a b}, R w' a b → S w' (f a) (g b)) :
    Simulates ℓ lockstep S w (f <$> x) (g <$> y) :=
  fun s s' hs => (hx s s' hs).map hf

end

/-! ## What a step adds to the code -/

/-- The accepted code of a step, if its references are numbered from `i`. -/
inductive Step.Compiles (i : NodeId) : Step → Part → Prop where
  | run : (compile code i).problems = [] →
      Step.Compiles i (.run code) (.body (compile code i).statements)
  | execute : (compile code i).problems = [] →
      Step.Compiles i (.execute code) (.body (compile code i).statements)
  | evaluate : (compileExpression code i).tree = .ok e →
      Step.Compiles i (.evaluate code) (.expr e)

theorem Step.Compiles.accepted {i : NodeId} {step : Step} {part : Part}
    (h : step.Compiles i part) : part.Accepted := by
  cases h with
  | run h => exact .program h
  | execute h => exact .program h
  | evaluate h => exact .expression h

/-- Hosts that may hand in code may hand in whatever is accepted. -/
theorem Likeness.genuine_of_allowed {i : NodeId} {step : Step} (hallowed : ℓ.allowed step) {part : Part}
    (h : step.Compiles i part) : ℓ.genuine false part := by
  refine ℓ.genuine_of_accepted (ℓ.reentry_of_allowed hallowed ?_) h.accepted
  cases h <;> trivial

/-- The world at the beginning of a step: some steps begin anew. -/
def World.before (w : World) : Step → World
  | .run _ | .runOther _ | .execute _ => w.reset
  | _ => w

theorem World.le_before (w : World) (step : Step) : w ≤ w.before step := by
  cases step with
  | run | runOther | execute => exact le_reset w
  | _ => exact le_refl w

theorem World.later_before {step : Step} (h : step.HandsIn → ℓ.reentry) (w : World) :
    w.Later ℓ (w.before step) := by
  cases step with
  | run | runOther | execute => exact later_reset (h trivial) w
  | _ => exact later_refl w

/-! ## Steps, given how code is evaluated -/

/-- Ways of evaluating code that do alike on what is alike. -/
structure ProceedsAlike (ℓ : Likeness) (lockstep : Prop)
    (eval eval' : Environment → Expr → Eval Value)
    (run run' : Environment → List Stmt → Eval Completion)
    (invoke invoke' : Token → Value → List Value → Eval Value) : Prop where
  eval : ∀ {w code c σ ρs env e e'}, Sited w code c σ ρs env (.expr e) →
    Expr.Alike ℓ code ρs e e' →
      Simulates ℓ lockstep (Value.Alike ℓ) w (eval env e) (eval' env e')
  run : RunsAlike ℓ lockstep run run'
  invoke : ∀ {w own t t' v v' args args'}, ℓ.token own t t' → Value.Alike ℓ w v v' →
    List.Forall₂ (Value.Alike ℓ w) args args' → v.arity? = some args.length →
      Simulates ℓ lockstep (Value.Alike ℓ) w (invoke t v args) (invoke' t' v' args')

section

variable {s s' : Session} {gap : Nat} {eval eval' : Environment → Expr → Eval Value}
  {run run' : Environment → List Stmt → Eval Completion}
  {invoke invoke' : Token → Value → List Value → Eval Value}

/-- Forms of results alike. -/
def FormsAlike (ℓ : Likeness) (w : World) : HostForm → HostForm → Prop :=
  HostForm.Related (Value.Alike ℓ w)

theorem formsAlike_ofValue {v v' : Value} (hv : Value.Alike ℓ w v v') :
    FormsAlike ℓ w (.ofValue v) (.ofValue v') :=
  HostForm.related_ofValue hv hv.arity?_eq

theorem outcome_execute (source : String) (hrun : RunsAlike ℓ lockstep run run')
    (hs : Session.Alike ℓ w s s') (hnext : s.nextNode = s'.nextNode + gap)
    (hnumber : ∀ id, ℓ.number (id + gap) id)
    (hgenuine : (compile source s.nextNode).problems = [] →
      ℓ.genuine false (.body (compile source s.nextNode).statements)) :
    Outcome ℓ lockstep (fun _ text text' => text' = text) w.reset
      (Eval.executeProgram run source s) (Eval.executeProgram run' source s') := by
  have houtcome := outcome_runProgram source hrun hs hnext hnumber hgenuine
  refine houtcome.bind_later fun w₁ r r' hw₁ hr => ?_
  cases hr with
  | finished =>
      intro t t' ht
      have houtput := ht.output
      rw [hw₁.pace_of_reset] at houtput
      simp only [Pace.reset, Array.empty_append] at houtput
      simp only [eval_get_bind_apply, houtput]
      exact .ok (World.later_refl w₁) ht rfl
  | rejected => exact .pure rfl
  | @failed e e' he =>
      obtain ⟨⟨own, ht⟩, hfault, hproper⟩ := he
      obtain ⟨t, f⟩ := e
      obtain ⟨t', f'⟩ := e'
      cases hfault
      exact simulates_fault ht hproper

theorem outcome_evaluate (source : String) (heval : ProceedsAlike ℓ lockstep eval eval' run run' invoke invoke')
    (hs : Session.Alike ℓ w s s') (hnext : s.nextNode = s'.nextNode + gap)
    (hnumber : ∀ id, ℓ.number (id + gap) id)
    (hgenuine : ∀ e, (compileExpression source s.nextNode).tree = .ok e → ℓ.genuine false (.expr e)) :
    Outcome ℓ lockstep (fun w' r r' => Answer.Related (ℓ.view w') (.form r) (.form r')) w
      (Eval.evaluateCode eval source s) (Eval.evaluateCode eval' source s') := by
  unfold Eval.evaluateCode
  rw [eval_get_bind_apply, eval_get_bind_apply, eval_modify_bind_apply, eval_modify_bind_apply]
  rw [hnext] at hgenuine ⊢
  have hlater := compileExpression_later gap source s'.nextNode
  have htree : (compileExpression source (s'.nextNode + gap)).tree =
      (compileExpression source s'.nextNode).tree.map (Expr.moved 0 (· + gap)) := by rw [hlater]
  have hnextId := nextId_compileExpression_later gap source s'.nextNode
  cases hread : (compileExpression source s'.nextNode).tree with
  | error problems =>
      rw [hread] at htree
      rw [htree]
      refine .ok (World.later_refl w) ?_ .refused
      have hle := le_nextId_compileExpression source (s'.nextNode + gap)
      exact { hs with
        recorded := hs.recorded.later (hnext ▸ hle)
        recorded' := hs.recorded'.later (le_nextId_compileExpression source s'.nextNode)
        nextNode := fun hreentry => by rw [hnextId, hs.gap_eq hnext rfl hreentry] }
  | ok e =>
      rw [hread] at htree
      rw [htree]
      have hcode := hgenuine _ htree
      have haccepted := hs.acceptExpression htree hnext rfl hcode
      have halike := Code.exprAlike_ofExpression hread htree hnumber hcode
      have hsited : Sited (w.accept (Code.ofExpression htree gap)) (Code.ofExpression htree gap)
          {} [] [] Session.globals (.expr (e.moved 0 (· + gap))) :=
        .root (.inl rfl) haccepted.frames.globals haccepted.frames.free_globals
      have hform : Simulates ℓ lockstep
          (fun w' (r r' : Except (List Diagnostic) HostForm) =>
            Answer.Related (ℓ.view w') (.form r) (.form r')) (w.accept (Code.ofExpression htree gap))
          ((fun v => .ok (.ofValue v)) <$> eval Session.globals (e.moved 0 (· + gap)))
          ((fun v => .ok (.ofValue v)) <$> eval' Session.globals e) :=
        (heval.eval hsited halike).map fun hv => .form (formsAlike_ofValue hv)
      exact (hform _ _ haccepted).mono ⟨World.le_accept _, .inl rfl⟩

theorem simulates_called (heval : ProceedsAlike ℓ lockstep eval eval' run run' invoke invoke')
    {f f' : Value} (hf : Value.Alike ℓ w f f') {vs vs' : List Value}
    (hvs : ArgumentsFor ℓ f w vs vs') :
    Simulates ℓ lockstep (FormsAlike ℓ) w (.ofValue <$> invoke Eval.hostSite f vs)
      (.ofValue <$> invoke' Eval.hostSite f' vs') :=
  (heval.invoke ℓ.token_site hf hvs.1 hvs.2).map formsAlike_ofValue

theorem simulates_callForm (heval : ProceedsAlike ℓ lockstep eval eval' run run' invoke invoke')
    {f f' : HostForm} (hf : HostForm.Related (Value.Alike ℓ w) f f') {os os' : List HostObject}
    (hos : ObjectsAlike ℓ w os os') (hstrict : ℓ.strict → (Step.call f os).Orderly) :
    Simulates ℓ lockstep (FormsAlike ℓ) w (Eval.callForm invoke os f)
      (Eval.callForm invoke' os' f') := by
  cases hf with
  | plain hv =>
      simp only [Eval.callForm, hv.hostSort_eq]
      exact simulates_hostError hstrict
  | wrapper hf =>
      exact (simulates_hostArguments hf hos hstrict).bind fun w₁ vs vs' hw₁ hvs =>
        simulates_called heval (hf.mono hw₁) hvs

theorem tries_callForm (heval : ProceedsAlike ℓ lockstep eval eval' run run' invoke invoke')
    {f f' : HostForm} (hf : HostForm.Related (Value.Alike ℓ w) f f') {os os' : List HostObject}
    (hos : ObjectsAlike ℓ w os os') :
    Tries ℓ lockstep (FormsAlike ℓ) w (Eval.callForm invoke os f)
      (Eval.callForm invoke' os' f') := by
  cases hf with
  | plain hv =>
      simp only [Eval.callForm, hv.hostSort_eq]
      exact tries_hostError
  | wrapper hf =>
      exact (tries_hostArguments hf hos).bind fun w₁ vs vs' hw₁ hvs =>
        (simulates_called heval (hf.mono hw₁) hvs).tries

/-- Steps alike come to the same, if code that they hand in is numbered alike. -/
theorem outcome_take (heval : ProceedsAlike ℓ lockstep eval eval' run run' invoke invoke')
    (hs : Session.Alike ℓ w s s') {step step' : Step}
    (hnext : step.HandsIn → s.nextNode = s'.nextNode + gap)
    (hnumber : step.HandsIn → ∀ id, ℓ.number (id + gap) id)
    (hgenuine : ∀ {part}, step.Compiles s.nextNode part → ℓ.genuine false part)
    (hstep : Step.Alike ℓ w step step') (hstrict : ℓ.strict → step.Orderly) :
    Outcome ℓ lockstep (fun w' => Answer.Related (ℓ.view w')) (w.before step)
      (Eval.take eval run invoke step s) (Eval.take eval' run' invoke' step' s') := by
  cases hstep with
  | @run _ code =>
      exact (outcome_runProgram code heval.run hs (hnext trivial) (hnumber trivial)
        fun h => hgenuine (.run h)).map fun hr => .report hr
  | @runOther _ sort =>
      exact .host (World.later_refl _) hs.beginRun fun h => hstrict h
  | @execute _ code =>
      refine (outcome_execute code heval.run hs (hnext trivial) (hnumber trivial)
        fun h => hgenuine (.execute h)).map fun {w' text text'} htext => ?_
      rw [htext]
      exact .text
  | @evaluate _ code =>
      exact (outcome_evaluate code heval hs (hnext trivial) (hnumber trivial)
        fun _ h => hgenuine (.evaluate h)).map fun hr => hr
  | @get _ name => exact (simulates_getGlobal name).map (fun hf => .form hf) s s' hs
  | set ho => exact (simulates_setGlobal _ ho hstrict).map (fun _ => .nothing) s s' hs
  | call hf hos =>
      exact (simulates_callForm heval hf hos hstrict).map (fun hf => .form hf) s s' hs

/-- Attempts of steps alike come to the same, also of steps that are not orderly. -/
theorem outcome_attempt_take
    (heval : ProceedsAlike ℓ lockstep eval eval' run run' invoke invoke')
    (hs : Session.Alike ℓ w s s') {step step' : Step}
    (hnext : step.HandsIn → s.nextNode = s'.nextNode + gap)
    (hnumber : step.HandsIn → ∀ id, ℓ.number (id + gap) id)
    (hgenuine : ∀ {part}, step.Compiles s.nextNode part → ℓ.genuine false part)
    (hstep : Step.Alike ℓ w step step') :
    Outcome ℓ lockstep (fun w' r r' =>
        Attempted (ℓ.view w').errors (Answer.Related (ℓ.view w')) r r' ∧
          (ℓ.strict → step.Orderly → ∀ e, r ≠ .error (.host e))) (w.before step)
      (Eval.attempt (Eval.take eval run invoke step) s)
      (Eval.attempt (Eval.take eval' run' invoke' step') s') := by
  by_cases horderly : step.Orderly
  · refine (outcome_take heval hs hnext hnumber hgenuine hstep fun _ => horderly).attempt.imp
      fun h => ?_
    exact ⟨h.1, fun hstrict _ => h.2 hstrict⟩
  · -- A mistake of the host is noticed before any code is evaluated.
    have early : Outcome ℓ lockstep (fun w' => Attempted (ℓ.view w').errors (Answer.Related (ℓ.view w')))
        (w.before step) (Eval.attempt (Eval.take eval run invoke step) s)
        (Eval.attempt (Eval.take eval' run' invoke' step') s') := by
      cases hstep with
      | runOther => exact .ok (World.later_refl _) hs.beginRun .host
      | set ho => exact (tries_setGlobal _ ho).map (fun _ => .nothing) s s' hs
      | call hf hos => exact (tries_callForm heval hf hos).map (fun hf => .form hf) s s' hs
      | _ => exact absurd trivial horderly
    exact early.imp fun h => ⟨h, fun _ h => absurd h horderly⟩

/-- A step of a host function comes to the same. -/
theorem simulates_attempt_take
    (heval : ProceedsAlike ℓ lockstep eval eval' run run' invoke invoke') {step step' : Step}
    (hallowed : ℓ.allowed step) (hstep : Step.Alike ℓ w step step') :
    Simulates ℓ lockstep (fun w' r r' =>
        Attempted (ℓ.view w').errors (Answer.Related (ℓ.view w')) r r' ∧
          (ℓ.strict → step.Orderly → ∀ e, r ≠ .error (.host e))) w
      (Eval.attempt (Eval.take eval run invoke step))
      (Eval.attempt (Eval.take eval' run' invoke' step')) := by
  intro s s' hs
  have hreentry : step.HandsIn → ℓ.reentry := ℓ.reentry_of_allowed hallowed
  exact (outcome_attempt_take heval hs (fun h => hs.nextNode (hreentry h))
    (fun h => hs.number (hreentry h)) (ℓ.genuine_of_allowed hallowed) hstep).mono (World.later_before hreentry w)

end

end Lox
