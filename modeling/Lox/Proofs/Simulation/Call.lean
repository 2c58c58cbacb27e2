import Lox.Proofs.Simulation.Object

/-!
# Calls

Calls of things alike with arguments alike come to results alike, if the bodies of functions do.
-/

namespace Lox

section

variable (ℓ : Likeness)

/-- Statements that end alike.  Only those in a function may return, and `P` holds after those that
end normally. -/
inductive Completion.Alike (c : Context) (P : World → Prop) (w : World) :
    Completion → Completion → Prop where
  | normal : P w → Completion.Alike c P w .normal .normal
  | returned : c.inFunction ≠ none → Value.Alike ℓ w v v' →
      Completion.Alike c P w (.returned v) (.returned v')

/-- Two ways to run bodies that end alike on bodies alike. -/
def RunsAlike (lockstep : Prop) (run run' : Environment → List Stmt → Eval Completion) : Prop :=
  ∀ {w code c σ ρs env ss ss'}, Sited w code c σ ρs env (.body ss) →
    BodyAlike ℓ code ρs ss ss' →
      Simulates ℓ lockstep (Completion.Alike ℓ c fun _ => True) w (run env ss) (run' env ss')

end

variable {ℓ : Likeness} {lockstep : Prop} {w : World} {env : Environment} {σ : Scopes}
  {ρs : List (String → String)} {own : Bool}

theorem Completion.Alike.value {c : Context} {P : World → Prop} {r r' : Completion}
    (h : Completion.Alike ℓ c P w r r') : Value.Alike ℓ w r.value r'.value := by
  cases h with
  | normal _ => exact .nil
  | returned _ hv => exact hv

theorem simulates_nested {α β : Type} {R : World → α → β → Prop} {x : Eval α} {y : Eval β}
    {t t' : Token} (ht : ℓ.token own t t') (h : Simulates ℓ lockstep R w x y) :
    Simulates ℓ lockstep R w (Eval.nested t x) (Eval.nested t' y) := by
  intro s s' hs
  have left : ∀ {w₁ : World} {s₁ s₁' : Session}, Session.Alike ℓ w₁ s₁ s₁' →
      Session.Alike ℓ w₁ { s₁ with depth := s₁.depth - 1 } { s₁' with depth := s₁'.depth - 1 } :=
    fun hs₁ => { hs₁ with depth := congrArg (· - 1) hs₁.depth }
  unfold Eval.nested
  by_cases hblank : s.limits.calls = .blank
  · have hblank' : s'.limits.calls = .blank := hs.limits ▸ hblank
    rw [if_pos hblank, if_pos hblank']
    exact .host (World.later_refl w) hs fun hstrict => hs.limited hstrict hblank
  have hblank' : ¬ s'.limits.calls = .blank := hs.limits ▸ hblank
  rw [if_neg hblank, if_neg hblank']
  have hsame : s'.limits.exceeded (s'.depth + 1) = s.limits.exceeded (s.depth + 1) := by
    rw [hs.limits, hs.depth]
  by_cases hdeep : s.limits.exceeded (s.depth + 1) = true
  · rw [if_pos hdeep, if_pos (hsame.trans hdeep)]
    exact .fault (World.later_refl w) hs ht trivial
  rw [if_neg hdeep, if_neg (hsame ▸ hdeep)]
  have hout := h { s with depth := s.depth + 1 } { s' with depth := s'.depth + 1 }
    { hs with depth := congrArg (· + 1) hs.depth }
  generalize x { s with depth := s.depth + 1 } = r at hout ⊢
  generalize y { s' with depth := s'.depth + 1 } = r' at hout ⊢
  cases hout with
  | ok hw hs₁ hR => exact .ok hw (left hs₁) hR
  | fault hw hs₁ ht hf => exact .fault hw (left hs₁) ht hf
  | host hw hs₁ hstrict => exact .host hw (left hs₁) hstrict
  | outOfFuel hw hs₁ => exact .outOfFuel hw (left hs₁)
  | slack hslack => exact .slack hslack

theorem Scopes.Open.settle (h : σ.Open) {name : Token} (hname : name.Plain) :
    (σ.settle name).Open := by
  cases σ with
  | nil => exact h
  | cons scope σ =>
      rintro _ ⟨⟩
      have hscope : Scope.Ordinary scope := h scope rfl
      exact (hscope.set hname false).set hname true

theorem simulates_defineAll {params params' : List Token} {args args' : List Value}
    (hcovers : Covers w env σ ρs) (hopen : σ.Open)
    (hparams : List.Forall₂ (fun p p' : Token => p'.lexeme = renameHere ρs p.lexeme) params params')
    (hplain : ∀ p ∈ params, p.Plain) (hargs : List.Forall₂ (Value.Alike ℓ w) args args')
    (hcount : args.length = params.length) :
    Simulates ℓ lockstep (fun w' _ _ => Covers w' env (resolveParams σ params).2 ρs) w
      (Eval.defineAll env params args) (Eval.defineAll env params' args') := by
  induction hparams generalizing w σ args args' with
  | nil =>
      obtain rfl := List.length_eq_zero_iff.mp hcount
      cases hargs with
      | nil => exact .pure hcovers
  | @cons p p' params params' hp _ ih =>
      cases hargs with
      | nil => cases hcount
      | @cons v v' args args' hv hargs =>
          have hname := hplain p List.mem_cons_self
          unfold Eval.defineAll
          rw [hp]
          have hdefine : Simulates ℓ lockstep _ w (Eval.define env p.lexeme v)
              (Eval.define env (renameHere ρs p.lexeme) v') :=
            simulates_define hcovers hopen (fun _ => hname) fun _ hw _ => hv.mono hw
          refine hdefine.bind fun w₁ _ _ hw₁ ⟨hcovers₁, _⟩ => ?_
          rw [← Scopes.settle_eq_put] at hcovers₁
          exact ih hcovers₁ (hopen.settle hname) (fun q hq => hplain q (List.mem_cons_of_mem _ hq))
            (hargs.imp fun _ _ h => h.mono hw₁) (Nat.succ.inj hcount)

/-- The environment in which the body of a function runs. -/
def Eval.open (f : Closure) (arguments : List Value) : Eval Environment := do
  let env ← enter f.env
  defineAll env f.decl.params arguments
  return env

theorem Eval.activate_eq (run : Environment → List Stmt → Eval Completion) (f : Closure)
    (arguments : List Value) :
    Eval.activate run f arguments = (do
      let env ← Eval.open f arguments
      let completion ← run env f.decl.body
      if f.role = .initializer then readAt f.env 0 "this" else return completion.value) := by
  simp only [Eval.activate, Eval.open, bind_assoc, pure_bind]

/-- Bodies alike of functions, whose code belongs into an environment. -/
def BodiesPlaced (ℓ : Likeness) (w : World) (env : Environment) (ss ss' : List Stmt) : Prop :=
  ∃ (code : Code) (c : Context) (σ : Scopes) (ρs : List (String → String)),
    c.inFunction ≠ none ∧ Sited w code c σ ρs env (.body ss) ∧ BodyAlike ℓ code ρs ss ss'

theorem simulates_open {f f' : Closure} (hf : Closure.Alike ℓ w f f') {args args' : List Value}
    (hargs : List.Forall₂ (Value.Alike ℓ w) args args') (hcount : args.length = f.decl.arity) :
    Simulates ℓ lockstep
      (fun w' env env' => env' = env ∧ BodiesPlaced ℓ w' env f.decl.body f'.decl.body) w
      (Eval.open f args) (Eval.open f' args') := by
  obtain ⟨-, henv, -, ⟨code, c, σ, ρs, hc, hsited, halike⟩, -, -⟩ := hf
  obtain ⟨_, decl, env, _⟩ := f
  obtain ⟨_, decl', _, _⟩ := f'
  cases henv
  cases halike with
  | @mk _ _ ρ params params' ρs ss ss' _ hρ hparams hbody =>
      have hplain : ∀ p ∈ params, p.Plain := hsited.checked.formed.1
      refine (simulates_enter hsited.covers hρ).bind fun w₁ e e' hw₁ ⟨he, hentered⟩ => ?_
      subst he
      have hopen : Scopes.Open ([] :: σ) := by
        rintro _ ⟨⟩
        exact ⟨rfl, rfl⟩
      refine (simulates_defineAll hentered.covers hopen (hparams.imp fun _ _ h => h.2) hplain
        (hargs.imp fun _ _ h => h.mono hw₁) hcount).bind fun w₂ _ _ hw₂ hcovers₂ => ?_
      refine .pure ⟨rfl, code, c, (resolveParams ([] :: σ) params).2, _, hc, ?_, hbody⟩
      constructor
      · exact hw₂.code (hw₁.code hsited.accepted)
      · exact hsited.reaches.functionBody
      · exact hcovers₂
      · exact fun f hf => Nat.lt_of_lt_of_le (hentered.bounded f hf) hw₂.frames
      · exact fun id hid => (hentered.held ((hsited.mono hw₁).held id hid)).mono hw₂ hentered.bounded

section

variable {run run' : Environment → List Stmt → Eval Completion}

theorem simulates_activate (hrun : RunsAlike ℓ lockstep run run') {f f' : Closure}
    (hf : Closure.Alike ℓ w f f') {args args' : List Value}
    (hargs : List.Forall₂ (Value.Alike ℓ w) args args') (hcount : args.length = f.decl.arity) :
    Simulates ℓ lockstep (Value.Alike ℓ) w (Eval.activate run f args)
      (Eval.activate run' f' args') := by
  rw [Eval.activate_eq, Eval.activate_eq, hf.env_eq, hf.role_eq]
  refine (simulates_open hf hargs hcount).bind fun w₁ env env' hw₁ ⟨henv, hplaced⟩ => ?_
  subst henv
  obtain ⟨code, c, σ, ρs, _, hsited, hbody⟩ := hplaced
  refine (hrun hsited hbody).bind fun w₂ r r' hw₂ hr => ?_
  split
  · next hinitializer =>
      -- An initializer was bound, so `this` is in the frame around its own.
      have hbound : f.Bound w₂ :=
        (hf.bound (by rw [hinitializer]; nofun)).mono (World.le_trans hw₁ hw₂)
      obtain ⟨frame, outer, i, cls, home, method, henv, -, hfixture, -⟩ := hbound
      have hdrop : f.env.drop 0 = frame :: outer := henv
      have hread : Simulates ℓ lockstep _ w₂ (Eval.readAt f.env (0 : Nat) "this")
          (Eval.readAt f.env (0 : Nat) "this") :=
        simulates_readAt_fixture hdrop hfixture
      exact hread.imp fun _ h => h.2
  · exact .pure hr.value

theorem simulates_instantiate (hrun : RunsAlike ℓ lockstep run run') {cls cls' : Class}
    (hcls : Class.Alike ℓ w cls cls') {args args' : List Value}
    (hargs : List.Forall₂ (Value.Alike ℓ w) args args') (hcount : args.length = cls.arity) :
    Simulates ℓ lockstep (Value.Alike ℓ) w (Eval.instantiate run cls args)
      (Eval.instantiate run' cls' args') := by
  unfold Eval.instantiate
  refine (simulates_newInstance hcls).bind fun w₁ v v' hw₁ ⟨hv, i, hi⟩ => ?_
  subst hi
  unfold Class.arity at hcount
  rcases option_rel_cases (hcls.findMethod? initializerName) with
    ⟨hmethod, hmethod'⟩ | ⟨f, f', hmethod, hmethod', hf⟩
  · simp only [Class.initializer?, hmethod, hmethod']
    exact .pure hv
  · simp only [Class.initializer?, hmethod, hmethod'] at hcount ⊢
    obtain ⟨home, hinherits, hmem⟩ := Class.home_of_findMethod? hmethod
    refine (simulates_bindThis (hf.mono hw₁) hv hinherits hmem).bind
      fun w₂ g g' hw₂ ⟨hg, hdecl, _⟩ => ?_
    have hargs₂ : List.Forall₂ (Value.Alike ℓ w₂) args args' :=
      hargs.imp fun _ _ h => (h.mono hw₁).mono hw₂
    rw [← hdecl] at hcount
    exact (simulates_activate hrun hg hargs₂ hcount).bind
      fun w₃ _ _ hw₃ _ => .pure ((hv.mono hw₂).mono hw₃)

end

theorem simulates_checkCall {t t' : Token} (ht : ℓ.token own t t') {v v' : Value}
    (hv : Value.Alike ℓ w v v') (count : Nat) :
    Simulates ℓ lockstep (fun _ _ _ => v.arity? = some count) w (Eval.checkCall t v count)
      (Eval.checkCall t' v' count) := by
  unfold Eval.checkCall
  rw [hv.arity?_eq]
  cases harity : v.arity? with
  | none => exact simulates_fault ht (by trivial)
  | some arity =>
      dsimp only
      split
      · next hcount => exact .pure (congrArg some hcount.symm)
      · exact simulates_fault ht (by trivial)

end Lox
