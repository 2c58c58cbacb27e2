import Lox.Proofs.Preservation.Upheld

/-!
# Evaluation does not look at the report

The output and the flags tell the user about the last run.  No step of evaluation looks at them, so it
makes no difference to an evaluation whether it is part of a run that has just begun.
-/

namespace Lox

namespace Eval

variable {α β : Type}

/-- A step that ends as it would end in a run that has just begun, but for the report. -/
class Unreported (x : Eval α) : Prop where
  begun : ∀ s : Session, endIn Session.beginRun (x s.beginRun) = endIn Session.beginRun (x s)

theorem Unreported.of_same {x : Eval α} (h : ∀ s : Session, x s.beginRun = x s) : Unreported x where
  begun s := by rw [h s]

theorem Unreported.transfer {x : Eval α} [hx : Unreported x] {s t : Session}
    (h : s.beginRun = t.beginRun) : endIn Session.beginRun (x s) = endIn Session.beginRun (x t) := by
  rw [← hx.begun s, ← hx.begun t, h]

instance (priority := low) (x : Eval α) [hx : Local x] : Unreported x where
  begun s := by
    have hbegun : x s.beginRun = endIn (·.within s.beginRun) (x s) := hx.apply s s.beginRun
    have hsame : x s = endIn (·.within s) (x s) := hx.apply s s
    rw [hbegun, hsame]
    cases x s <;> rfl

instance (i : Interrupt) : Unreported (throw i : Eval α) :=
  ⟨fun _ => rfl⟩

section

variable {x : Eval α} {f : α → Eval β}

theorem Unreported.bind [hx : Unreported x] (hf : ∀ a, Unreported (f a)) :
    Unreported (x >>= f) where
  begun s := by
    have hfirst := hx.begun s
    rw [eval_bind_apply, eval_bind_apply]
    cases hs : x s with
    | ok a s₁ =>
        cases hs' : x s.beginRun with
        | ok a' s₁' =>
            rw [hs, hs'] at hfirst
            injection hfirst with ha hsame
            subst ha
            exact (hf a').transfer hsame
        | error i s₁' =>
            rw [hs, hs'] at hfirst
            cases hfirst
    | error i s₁ =>
        cases hs' : x s.beginRun with
        | ok a' s₁' =>
            rw [hs, hs'] at hfirst
            cases hfirst
        | error i' s₁' =>
            rw [hs, hs'] at hfirst
            injection hfirst with hi hsame
            subst hi
            exact congrArg (EStateM.Result.error i') hsame

instance [Unreported x] [hf : ∀ a, Unreported (f a)] : Unreported (x >>= f) :=
  .bind hf

end

theorem Unreported.get_bind {f : Session → Eval β} (hf : ∀ s, Unreported (f s))
    (hsame : ∀ s : Session, f s.beginRun = f s) : Unreported (get >>= f) where
  begun s := by
    rw [eval_get_bind_apply, eval_get_bind_apply, hsame]
    exact (hf s).begun s

instance (g : α → β) (x : Eval α) [hx : Unreported x] : Unreported (g <$> x) := by
  rw [map_eq_pure_bind]
  infer_instance

theorem Unreported.of_modifyGet {f : Session → α × Session}
    (h : ∀ s : Session, (f s.beginRun).1 = (f s).1 ∧
      (f s.beginRun).2.beginRun = (f s).2.beginRun) : Unreported (modifyGet f : Eval α) where
  begun s := by
    change EStateM.Result.ok (f s.beginRun).1 (f s.beginRun).2.beginRun = _
    rw [(h s).1, (h s).2]
    rfl

instance (line : String) : Unreported (modify (Session.printLine line) : Eval Unit) :=
  .of_modifyGet fun _ => ⟨rfl, rfl⟩

/-! ## Exchange with the host -/

instance : Unreported readClock :=
  .of_modifyGet fun _ => ⟨rfl, rfl⟩

instance : Unreported readLine := by
  have htake : Unreported (modifyGet Session.takeLine : Eval (List Char)) :=
    .of_modifyGet fun _ => ⟨rfl, rfl⟩
  unfold readLine
  infer_instance

instance (o : HostObject) : Unreported (toValue o) := by
  obtain ⟨f, -, h⟩ | ⟨n, -, h⟩ | ⟨arity, body, -, h⟩ | ⟨-, h⟩ := toValue_cases o <;> rw [h]
  · infer_instance
  · infer_instance
  · exact .of_modifyGet fun _ => ⟨rfl, rfl⟩
  · infer_instance

instance (things : List HostForm) :
    Unreported (modify fun s => { s with memory := things } : Eval Unit) :=
  .of_modifyGet fun _ => ⟨rfl, rfl⟩

theorem unreported_attempt {x : Eval α} (hx : Unreported x) : Unreported (attempt x) where
  begun s := by
    have hinner := hx.begun s
    unfold attempt
    generalize x s.beginRun = r at hinner ⊢
    generalize x s = r' at hinner ⊢
    cases r with
    | ok a s₁ =>
        cases r' with
        | ok a' s₂ =>
            injection hinner with ha hsame
            subst ha
            exact congrArg (EStateM.Result.ok (Except.ok a)) hsame
        | error i s₂ => cases hinner
    | error i s₁ =>
        cases r' with
        | ok a s₂ => cases hinner
        | error i' s₂ =>
            injection hinner with hi hsame
            subst hi
            cases i with
            | fault e => exact congrArg (EStateM.Result.ok (Except.error (Raised.fault e))) hsame
            | host e => exact congrArg (EStateM.Result.ok (Except.error (Raised.host e))) hsame
            | stuck | outOfFuel => exact congrArg (EStateM.Result.error _) hsame

/-! ## Calls and runs -/

instance (site : Token) (x : Eval α) [hx : Unreported x] : Unreported (nested site x) where
  begun s := by
    have hinner : endIn Session.beginRun (x s.beginRun.deeper) = endIn Session.beginRun (x s.deeper) :=
      hx.begun s.deeper
    have hlimits : s.beginRun.limits = s.limits := rfl
    have hdepth : s.beginRun.depth = s.depth := rfl
    unfold nested
    rw [hlimits, hdepth]
    split
    · rfl
    split
    · rfl
    · change endIn _ (match x s.beginRun.deeper with | .ok _ _ => _ | .error _ _ => _) =
        endIn _ (match x s.deeper with | .ok _ _ => _ | .error _ _ => _)
      generalize x s.beginRun.deeper = r at hinner ⊢
      generalize x s.deeper = r' at hinner ⊢
      have hback := congrArg (endIn Session.shallower) hinner
      cases r <;> cases r' <;> exact hback

theorem unreported_evaluateCode {eval : Environment → Expr → Eval Value}
    (heval : ∀ env e, Unreported (eval env e)) (code : String) :
    Unreported (evaluateCode eval code) :=
  .get_bind (fun s => by
    have hnumber : Unreported (modify fun s' =>
        { s' with nextNode := (compileExpression code s.nextNode).nextId } : Eval Unit) :=
      .of_modifyGet fun _ => ⟨rfl, rfl⟩
    refine .bind fun _ => ?_
    split <;> infer_instance) fun _ => rfl

/-! ## Evaluation -/

theorem inherited_unreported : Inherited .all (fun _ x => Unreported x) where
  plain _ _ _ := inferInstance
  outOfFuel := inferInstance
  bind _ hf := .bind hf
  native hf hsame := .get_bind (fun s => hf s s.hostsWithin_all) fun _ => hsame rfl
  print _ := inferInstance
  clock := inferInstance
  line := inferInstance
  value _ := inferInstance
  nested _ _ := inferInstance
  raise _ := inferInstance
  attempt hx hf _ :=
    have := unreported_attempt hx
    .bind hf
  recollect hf := .get_bind (fun s => hf s.memory) fun _ => rfl
  keep _ := inferInstance
  evaluate _ _ heval := unreported_evaluateCode heval
  -- A run begins by forgetting the report.
  program _ _ _ _ := .of_same fun _ => rfl
  other _ _ := .of_same fun _ => rfl
  execute _ _ _ _ := .of_same fun _ => rfl

/-- No evaluation depends on the report. -/
theorem allUnreported (n : Nat) : AllHave .all (fun _ x => Unreported x) n :=
  inherited_unreported.all n

end Eval

end Lox
