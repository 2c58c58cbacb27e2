import Lox.Proofs.ForLoop.Direct

/-!
# The two loops run alike

The `while` loop that reading makes of a `for` loop agrees with the loop itself, which does without the
frames of the blocks around body and increment.  The `while` loop needs a few steps more for each round,
as it nests more statements.
-/

namespace Lox.ForLoop

variable {early late : Prop} {w : Layout} {T : Twin} {gaps : Gaps} {l l' : ForLoop} {n m : Nat}
  {env env' : Environment}

/-! ## One round -/

/-- The increment behind the body, which ends normally. -/
theorem agree_increment {e e' : Expr} (hearly : early ∨ m + 2 ≤ n) (hlate : late ∨ n ≤ m)
    (hsited : T.Sited w gaps env env') (he : Expr.Thins T gaps e e') :
    Agree early late (Completion.Thins) w (Eval.execAll n env [.expression e]) (do
      let _ ← Eval.eval m env' e'
      return .normal) := by
  match n, hearly, hlate with
  | 0, hearly, _ => exact agree_early (hearly.resolve_right nofun)
  | 1, hearly, _ => exact agree_early (hearly.resolve_right (by omega))
  | n + 2, hearly, hlate =>
      simp only [Eval.execAll, Eval.exec, bind_assoc, pure_bind]
      have heval : EvaluationsAgree early late n m :=
        evaluationsAgree (hearly.imp_right (by omega)) (hlate.imp_right (by omega))
      exact (heval.eval hsited he).bind fun _ _ _ _ _ => .pure .normal

/-- Body and increment, in a frame that the direct loop does without. -/
theorem agree_block {s s' : Stmt} {e e' : Expr} (hearly : early ∨ m + 4 ≤ n)
    (hlate : late ∨ n ≤ m) (hsited : T.Sited w gaps env env') (hpartial : ¬ w.whole)
    (hbody : Stmt.Thins T (true :: gaps) s s') (he : Expr.Thins T (true :: gaps) e e') :
    Agree early late (Completion.Thins) w (Eval.exec n env (.block [s, .expression e])) (do
      match ← Eval.exec m env' s' with
      | .normal => do
        let _ ← Eval.eval m env' e'
        return .normal
      | .returned value => return .returned value) := by
  cases n with
  | zero => exact agree_early (hearly.resolve_right (by omega))
  | succ n =>
      intro t t' ht
      simp only [Eval.exec]
      refine AgreedEnd.mono (w.later_skip hpartial) (agreedEnd_skip hpartial hsited ?_ ht)
      intro w₁ env₁ hsited₁ _
      cases n with
      | zero => exact agree_early (hearly.resolve_right (by omega))
      | succ n =>
          simp only [Eval.execAll]
          have heval : EvaluationsAgree early late n m :=
            evaluationsAgree (hearly.imp_right (by omega)) (hlate.imp_right (by omega))
          refine (heval.exec hsited₁ hbody).bind fun w₂ r r' hw₂ hr => ?_
          cases hr with
          | normal =>
              exact agree_increment (hearly.imp_right (by omega)) (hlate.imp_right (by omega))
                (hsited₁.mono hw₂) he
          | returned hv => exact .pure (.returned hv)

theorem agree_once (hearly : early ∨ m + 4 ≤ n) (hlate : late ∨ n ≤ m)
    (hsited : T.Sited w gaps env env') (hpartial : ¬ w.whole)
    (h : StepThins T gaps l.body l.increment l'.body l'.increment) :
    Agree early late (Completion.Thins) w (Eval.exec n env l.step) (l'.once m env') := by
  rcases l with ⟨initial, condition, increment, body, hquiet⟩
  rcases l' with ⟨initial', condition', increment', body', hquiet'⟩
  cases h with
  | bare hbody =>
      have heval : EvaluationsAgree early late n m :=
        evaluationsAgree (hearly.imp_right (by omega)) hlate
      rw [← bind_pure (Eval.exec n env (step _))]
      refine (heval.exec hsited hbody).bind fun w₁ r r' _ hr => ?_
      cases hr with
      | normal => exact .pure .normal
      | returned hv => exact .pure (.returned hv)
  | block hbody he =>
      simp only [once, advance, bind_assoc, pure_bind]
      exact agree_block hearly hlate hsited hpartial hbody he

/-! ## All rounds -/

theorem agree_rounds (hearly : early ∨ m + 4 ≤ n) (hlate : late ∨ n ≤ m)
    (hsited : T.Sited w gaps env env') (hpartial : ¬ w.whole) (h : RoundsThin T gaps l l') :
    Agree early late (Completion.Thins) w (Eval.exec n env (.loop l.test l.step))
      (l'.rounds m env') := by
  -- A round of the `while` loop nests up to four steps more than one of the loop itself, for the
  -- blocks around body and increment.
  induction n generalizing m w with
  | zero => exact agree_early (hearly.resolve_right (by omega))
  | succ n ih =>
      cases m with
      | zero => exact agree_late (hlate.resolve_right (by omega))
      | succ m =>
          have hearly : early ∨ m + 4 ≤ n := hearly.imp_right (by omega)
          have hlate : late ∨ n ≤ m := hlate.imp_right (by omega)
          have heval : EvaluationsAgree early late n m :=
            evaluationsAgree (hearly.imp_right (by omega)) hlate
          simp only [Eval.exec, rounds]
          refine ((heval.eval hsited h.test).stillPartial hpartial).bind ?_
          rintro w₁ v v' hw₁ ⟨hpartial₁, hv⟩
          have hsited₁ := hsited.mono hw₁
          rw [hv.isTruthy_eq]
          split
          · refine ((agree_once hearly hlate hsited₁ hpartial₁ h.step).stillPartial hpartial₁).bind ?_
            rintro w₂ r r' hw₂ ⟨hpartial₂, hr⟩
            cases hr with
            | normal => exact ih hearly hlate (hsited₁.mono hw₂) hpartial₂
            | returned hv => exact .pure (.returned hv)
          · exact .pure .normal

/-! ## The whole loop -/

/-- The `while` loop behind an initializer, and the end of the block around both. -/
theorem agree_last (hearly : early ∨ m + 6 ≤ n) (hlate : late ∨ n ≤ m)
    (hsited : T.Sited w gaps env env') (hpartial : ¬ w.whole) (h : RoundsThin T gaps l l') :
    Agree early late (Completion.Thins) w (Eval.execAll n env [.loop l.test l.step])
      (l'.rounds m env') := by
  match n, hearly, hlate with
  | 0, hearly, _ => exact agree_early (hearly.resolve_right nofun)
  | 1, hearly, _ => exact agree_early (hearly.resolve_right (by omega))
  | n + 2, hearly, hlate =>
      unfold Eval.execAll
      rw [← bind_pure (l'.rounds m env')]
      refine (agree_rounds (hearly.imp_right (by omega)) (hlate.imp_right (by omega)) hsited
        hpartial h).bind fun w₁ r r' _ hr => ?_
      cases hr with
      | normal => exact .pure .normal
      | returned hv => exact .pure (.returned hv)

/-- The `while` loop that reading makes of a `for` loop agrees with the loop itself. -/
theorem agree_run (hearly : early ∨ m + 8 ≤ n) (hlate : late ∨ n ≤ m)
    (hsited : T.Sited w gaps env env') (hpartial : ¬ w.whole) (h : LoopThins T gaps l l') :
    Agree early late (Completion.Thins) w (Eval.exec n env l.desugared) (l'.run m env') := by
  cases h with
  | bare hnone hnone' h =>
      simp only [l.desugared_of_none hnone, run, hnone']
      exact agree_rounds (hearly.imp_right (by omega)) hlate hsited hpartial h
  | @opened first first' hsome hsome' hfirst h =>
      simp only [l.desugared_of_some hsome, run, hsome']
      cases n with
      | zero => exact agree_early (hearly.resolve_right (by omega))
      | succ n =>
          simp only [Eval.exec]
          refine ((agree_enter hsited.env).stillPartial hpartial).bind ?_
          rintro w₁ inner inner' hw₁ ⟨hpartial₁, hinner⟩
          have hsited₁ : T.Sited w₁ (false :: gaps) inner inner' :=
            ⟨hw₁.knows hsited.known, hinner⟩
          cases n with
          | zero => exact agree_early (hearly.resolve_right (by omega))
          | succ n =>
              unfold Eval.execAll
              have heval : EvaluationsAgree early late n m :=
                evaluationsAgree (hearly.imp_right (by omega)) (hlate.imp_right (by omega))
              refine ((heval.exec hsited₁ hfirst).stillPartial hpartial₁).bind ?_
              rintro w₂ r r' hw₂ ⟨hpartial₂, hr⟩
              cases hr with
              | normal =>
                  exact agree_last (hearly.imp_right (by omega)) (hlate.imp_right (by omega))
                    (hsited₁.mono hw₂) hpartial₂ h
              | returned hv => exact .pure (.returned hv)

end Lox.ForLoop
