import Lox.Proofs.Depth.Overflow

/-!
# Higher limits

A run that no call was too deep for does the same under every higher limit.  If host functions run no
programs themselves and let overflows through, an overflow ends the whole run, so nothing but the outcome
tells whether the limit was ever reached.
-/

namespace Lox

/-- The order of limits.  A limit that was left without a number is only below itself. -/
def CallLimit.Below : CallLimit → CallLimit → Prop
  | .atMost n, .atMost m => n ≤ m
  | .atMost _, .unlimited | .unlimited, .unlimited | .blank, .blank => True
  | _, _ => False

instance : LE CallLimit := ⟨CallLimit.Below⟩

namespace CallLimit

variable {low high : CallLimit}

theorem blank_iff (h : low ≤ high) : high = .blank ↔ low = .blank := by
  cases low <;> cases high <;> first | exact h.elim | simp

theorem exceeded_anti (h : low ≤ high) {depth : Nat} (hlow : low.exceeded depth = false) :
    high.exceeded depth = false := by
  cases low <;> cases high <;> first | exact h.elim | rfl | skip
  next n m =>
    have hle : n ≤ m := h
    have hwithin : ¬ n < (depth : Int) := of_decide_eq_false hlow
    exact decide_eq_false fun hdeep => hwithin (Int.lt_of_le_of_lt hle hdeep)

end CallLimit

theorem Session.HasRoom.raised {s : Session} (h : s.HasRoom) {limit : CallLimit}
    (hlimit : s.limits.calls ≤ limit) : (s.raised limit).HasRoom := by
  obtain ⟨hblank, hroom⟩ := h
  refine ⟨fun h => hblank ((CallLimit.blank_iff hlimit).mp h), ?_⟩
  unfold Limits.exceeded at hroom ⊢
  rw [Bool.or_eq_false_iff] at hroom ⊢
  exact ⟨CallLimit.exceeded_anti hlimit hroom.1, hroom.2⟩

namespace Eval

variable {α β : Type}

/-- An end that is neither an overflow of the stack nor a lack of fuel. -/
structure Settled (r : EStateM.Result Interrupt Session α) : Prop where
  fits : ∀ site, ¬ Overflows site r
  fueled : ∀ s, r ≠ .error .outOfFuel s

theorem settled_ok (a : α) (s : Session) : Settled (.ok a s : EStateM.Result Interrupt Session α) :=
  ⟨fun _ h => h, fun _ => nofun⟩

theorem Settled.error {i : Interrupt} {s t : Session}
    (h : Settled (.error i s : EStateM.Result Interrupt Session α)) :
    Settled (.error i t : EStateM.Result Interrupt Session β) where
  fits := h.fits
  fueled _ hout := by
    cases hout
    exact h.fueled s rfl

/-- A step that does the same under higher limits, if it ends without an overflow of the stack. -/
class Fits (x : Eval α) : Prop where
  fits : ∀ {s : Session} {limit : CallLimit}, s.HostsWithin .noRecovery → s.limits.calls ≤ limit →
    Settled (x s) → x (s.raised limit) = raisedEnd limit (x s)

instance (x : Eval α) [hx : Plain x] : Fits x :=
  ⟨fun _ _ _ => hx.raised _ _⟩

instance (i : Interrupt) : Fits (throw i : Eval α) :=
  ⟨fun _ _ _ => rfl⟩

section

variable {x : Eval α} {f : α → Eval β}

theorem raised_bind_of {s : Session} {limit : CallLimit}
    (hfirst : Settled (x s) → x (s.raised limit) = raisedEnd limit (x s))
    (hsecond : ∀ {a s₁}, x s = .ok a s₁ → Settled (f a s₁) →
      f a (s₁.raised limit) = raisedEnd limit (f a s₁))
    (h : Settled ((x >>= f) s)) : (x >>= f) (s.raised limit) = raisedEnd limit ((x >>= f) s) := by
  simp only [eval_bind_apply] at h ⊢
  cases hx : x s with
  | ok a s₁ =>
      rw [hx] at hfirst h
      rw [hfirst (settled_ok a s₁)]
      exact hsecond hx h
  | error i s₁ =>
      rw [hx] at hfirst h
      rw [hfirst h.error]
      rfl

/-- The first of two steps leaves the limits and the host functions as they are. -/
theorem Fits.bind [hx : Fits x] [hsame : Upholds .noRecovery Session.SameDepth x]
    (hf : ∀ a, Fits (f a)) : Fits (x >>= f) where
  fits hs hlimit := raised_bind_of (hx.fits hs hlimit) fun hxs => by
    obtain ⟨hleft, hdepth⟩ := hsame.of_ok hs hxs
    exact (hf _).fits hleft (hdepth.limits ▸ hlimit)

instance [Fits x] [Upholds .noRecovery Session.SameDepth x] [hf : ∀ a, Fits (f a)] : Fits (x >>= f) :=
  .bind hf

end

theorem Fits.get_bind {f : Session → Eval β} (hf : ∀ s, s.HostsWithin .noRecovery → Fits (f s))
    (hsame : ∀ limit s, f (s.raised limit) = f s) : Fits (get >>= f) where
  fits {s limit} hs hlimit hfits := by
    rw [eval_get_bind_apply] at hfits ⊢
    rw [eval_get_bind_apply, hsame]
    exact (hf s hs).fits hs hlimit hfits

/-! ## Steps of host functions -/

theorem settled_of_attempt {x : Eval Answer} {f : Except Raised Answer → Eval Value} {s : Session}
    (hpasses : PassesOn f) (h : Settled ((attempt x >>= f) s)) : Settled (x s) := by
  rw [eval_bind_apply] at h
  cases hx : x s with
  | ok a t => exact settled_ok a t
  | error i t =>
      refine ⟨fun site hover => ?_, ?_⟩
      · obtain rfl : i = _ := hover
        obtain ⟨j, s', hf, hj⟩ := hpasses site t
        rw [attempt_raised (e := .fault _) hx] at h
        dsimp only at h
        rw [hf] at h
        rcases hj with rfl | rfl
        · exact h.fits site rfl
        · exact h.fueled s' rfl
      · rintro _ ⟨⟩
        simp only [attempt, hx] at h
        exact h.fueled t rfl

theorem attempt_raisedEnd {x : Eval α} {s : Session} {limit : CallLimit}
    (h : x (s.raised limit) = raisedEnd limit (x s)) :
    attempt x (s.raised limit) = raisedEnd limit (attempt x s) := by
  unfold attempt
  rw [h]
  cases x s with
  | ok a t => rfl
  | error i t => cases i <;> rfl

/-- An overflow is let through, so a step that it ended would not have settled. -/
theorem fits_attempt {x : Eval Answer} {f : Except Raised Answer → Eval Value} [hx : Fits x]
    [hsame : Upholds .noRecovery Session.SameDepth x] (hf : ∀ r, Fits (f r)) (hpasses : PassesOn f) :
    Fits (attempt x >>= f) where
  fits {s limit} hs hlimit hsettled := by
    have hfirst := attempt_raisedEnd (hx.fits hs hlimit (settled_of_attempt hpasses hsettled))
    refine raised_bind_of (fun _ => hfirst) (fun hxs => ?_) hsettled
    obtain ⟨hleft, hdepth⟩ :=
      Upholds.of_ok (inferInstance : Upholds .noRecovery Session.SameDepth (attempt x)) hs hxs
    exact (hf _).fits hleft (hdepth.limits ▸ hlimit)

theorem fits_evaluateCode {eval : Environment → Expr → Eval Value} [∀ env e, Fits (eval env e)]
    [∀ env e, Upholds .noRecovery Session.SameDepth (eval env e)] (code : String) :
    Fits (evaluateCode eval code) where
  fits {s limit} hs hlimit hsettled := by
    have hnode : (s.raised limit).nextNode = s.nextNode := rfl
    unfold evaluateCode at hsettled ⊢
    rw [eval_get_bind_apply, eval_modify_bind_apply] at hsettled ⊢
    rw [eval_get_bind_apply, eval_modify_bind_apply, hnode]
    cases htree : (compileExpression code s.nextNode).tree with
    | error problems => rfl
    | ok e =>
        rw [htree] at hsettled
        have hform : Fits ((fun v => (.ok (.ofValue v) : Except (List Diagnostic) HostForm)) <$>
            eval Session.globals e) := by
          rw [map_eq_pure_bind]
          exact inferInstance
        exact hform.fits (s := s.numbering _) hs hlimit hsettled

/-! ## Evaluation -/

/-- Calls are the only steps that look at the limit. -/
instance (site : Token) (x : Eval α) [hx : Fits x] : Fits (nested site x) where
  fits {s limit} hs hlimit hsettled := by
    by_cases hblank : s.limits.calls = .blank
    · have hhigh : (s.raised limit).limits.calls = .blank := (CallLimit.blank_iff hlimit).mpr hblank
      unfold nested
      rw [if_pos hblank, if_pos hhigh]
      rfl
    -- A call that was too deep would overflow at its own site, so here there is room for it.
    have hroom : s.HasRoom := by
      refine ⟨hblank, Bool.eq_false_iff.mpr fun hdeep => hsettled.fits site ?_⟩
      unfold nested
      rw [if_neg hblank, if_pos hdeep]
      rfl
    rw [nested_of_room hroom] at hsettled ⊢
    rw [nested_of_room (hroom.raised hlimit)]
    have hinner := @Fits.fits α x hx s.deeper limit hs hlimit
    change (match x (s.deeper.raised limit) with | .ok _ _ => _ | .error _ _ => _) = _
    cases hxs : x s.deeper with
    | ok a t =>
        rw [hxs] at hinner
        rw [hinner (settled_ok a t)]
        rfl
    | error i t =>
        rw [hxs] at hinner hsettled
        rw [hinner hsettled.error]
        rfl

/-- The limits and the host functions stay as they are, so that the next step fits as well. -/
theorem inherited_fits :
    Inherited .noRecovery (fun _ x => Fits x ∧ Upholds .noRecovery Session.SameDepth x) where
  plain _ _ _ := ⟨inferInstance, inferInstance⟩
  outOfFuel := ⟨inferInstance, inferInstance⟩
  bind := fun ⟨_, _⟩ hf => ⟨.bind fun a => (hf a).1, .bind fun a => (hf a).2⟩
  native hf hsame := ⟨.get_bind (fun s hs => (hf s hs).1) fun _ _ => hsame rfl,
    .get_bind fun s hs => (hf s hs).2⟩
  print _ := ⟨inferInstance, inferInstance⟩
  clock := ⟨inferInstance, inferInstance⟩
  line := ⟨inferInstance, inferInstance⟩
  value ho := ⟨inferInstance, upholds_toValue ho⟩
  nested _ := fun ⟨_, _⟩ => ⟨inferInstance, inferInstance⟩
  raise _ := ⟨inferInstance, inferInstance⟩
  attempt := fun ⟨_, _⟩ hf hpasses =>
    ⟨fits_attempt (fun r => (hf r).1) (hpasses fun h => h), .bind fun r => (hf r).2⟩
  recollect hf := ⟨.get_bind (fun s _ => (hf s.memory).1) fun _ _ => rfl,
    .get_bind fun s _ => (hf s.memory).2⟩
  keep _ := ⟨inferInstance, inferInstance⟩
  evaluate hevaluates _ heval code :=
    have := fun env e => (heval env e).1
    have := fun env e => (heval env e).2
    ⟨fits_evaluateCode code, upholds_evaluateCode hevaluates this code⟩
  program := False.elim
  other := False.elim
  execute := False.elim

/-- No evaluation that settles is changed by a higher limit. -/
theorem allFit (n : Nat) : AllHave .noRecovery (fun _ x => Fits x) n :=
  (inherited_fits.all n).imp And.left

end Eval

section

variable {limit : CallLimit} {fuel : Nat} {code : String} {s s' : Session} {report : Report}

theorem Eval.raised_bind {α β : Type} {x : Eval α} {f : α → Eval β} [hf : ∀ a, Eval.Plain (f a)]
    (h : x (s.raised limit) = raisedEnd limit (x s)) :
    (x >>= f) (s.raised limit) = raisedEnd limit ((x >>= f) s) := by
  rw [eval_bind_apply, eval_bind_apply, h]
  cases x s with
  | ok a t => exact (hf a).raised limit t
  | error i t => rfl

theorem Eval.catchFault_raised {step : Eval Completion}
    (h : step (s.raised limit) = raisedEnd limit (step s)) :
    Eval.catchFault step (s.raised limit) = raisedEnd limit (Eval.catchFault step s) := by
  unfold Eval.catchFault
  rw [h]
  cases step s with
  | ok completion t => cases completion <;> rfl
  | error i t => cases i <;> rfl

/-- The statements of a run settle, unless it reports an overflow of the stack. -/
theorem Session.run_settled (hnone : (compile code s.nextNode).problems = [])
    (h : Session.run fuel code s = .ok report s')
    (hfits : ∀ site, report ≠ .failed ⟨site, .stackOverflow⟩) :
    Eval.Settled (Eval.execAll fuel Session.globals (compile code s.nextNode).statements
      (s.ready code)) := by
  obtain ⟨s₁, ⟨hrun, -, -⟩ | ⟨e, hrun, rfl, -⟩⟩ := Eval.runProgram_inv hnone h
  · rw [hrun]
    exact Eval.settled_ok _ _
  · rw [hrun]
    refine ⟨fun site hover => ?_, fun _ => nofun⟩
    cases hover
    exact hfits site rfl

/-- A run that ends without an overflow of the stack ends the same under every higher limit.  There may
be host functions, as long as they run no programs themselves and let overflows through. -/
theorem Session.run_raised (hhosts : s.HostsWithin .noRecovery) (hlimit : s.limits.calls ≤ limit)
    (h : Session.run fuel code s = .ok report s')
    (hfits : ∀ site, report ≠ .failed ⟨site, .stackOverflow⟩) :
    Session.run fuel code (s.raised limit) = .ok report (s'.raised limit) := by
  by_cases hnone : (compile code s.nextNode).problems = []
  · have hstatements := (Eval.allFit fuel).execAll Session.globals
      (compile code s.nextNode).statements
    have hready := Eval.catchFault_raised <|
      hstatements.fits (s := s.ready code) hhosts hlimit (Session.run_settled hnone h hfits)
    calc Session.run fuel code (s.raised limit)
      _ = (do
          let error ← Eval.catchFault
            (Eval.execAll fuel Session.globals (compile code s.nextNode).statements)
          Eval.conclude error : Eval Report) ((s.ready code).raised limit) :=
        Eval.runProgram_accepted (s := s.raised limit) hnone
      _ = raisedEnd limit (Session.run fuel code s) := by
        rw [Eval.raised_bind hready, ← Eval.runProgram_accepted hnone]
        rfl
      _ = .ok report (s'.raised limit) := by
        rw [h]
        rfl
  · unfold Session.run at h ⊢
    rw [Eval.runProgram_rejected hnone] at h
    rw [Eval.runProgram_rejected (s := s.raised limit) hnone]
    cases h
    rfl

end

def failure? : EStateM.Result Interrupt Session Report → Option RuntimeError
  | .ok (.failed e) _ => some e
  | _ => none

theorem failure?_inv {r : EStateM.Result Interrupt Session Report} {e : RuntimeError}
    (h : failure? r = some e) : ∃ s, r = .ok (.failed e) s := by
  unfold failure? at h
  split at h
  · cases h
    exact ⟨_, rfl⟩
  · cases h

/-- Two calls that nest within a limit of two, the inner one of which fails. -/
theorem Session.run_raised_nested :
    let s := Session.start ⟨.atMost 2, none⟩ [] fun _ => 0
    let code := "fun f(a) \x7b if (a) f(false); else nil(); \x7d f(true);"
    s.HostsWithin .noRecovery ∧ s.limits.calls ≤ .unlimited ∧
      ∃ e s', e.fault = .notCallable ∧ Session.run 20 code s = .ok (.failed e) s' ∧
        Session.run 20 code (s.raised .unlimited) = .ok (.failed e) (s'.raised .unlimited) := by
  intro s code
  have hhosts : s.HostsWithin .noRecovery := Session.hostsWithin_start _ _ _
  have hlimit : s.limits.calls ≤ .unlimited := trivial
  have hfails : (failure? (Session.run 20 code s)).map (·.fault) = some .notCallable := by
    set_option maxRecDepth 3000 in
    rw [show code = String.ofList _ from rfl]
    simp -zeta only [Session.run, Eval.runProgram, compile, Scan.ofSource_ofList]
    decide +kernel
  obtain ⟨e, hfailure, hfault⟩ := Option.map_eq_some_iff.mp hfails
  obtain ⟨s', hrun⟩ := failure?_inv hfailure
  refine ⟨hhosts, hlimit, e, s', hfault, hrun, Session.run_raised hhosts hlimit hrun ?_⟩
  rintro site ⟨⟩
  cases hfault

end Lox
