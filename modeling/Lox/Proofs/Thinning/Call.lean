import Lox.Proofs.Simulation.Call
import Lox.Proofs.Thinning.Action

/-!
# Functions, classes and calls with frames left out

What is made of a twin is related, and so is what calls of it come to.
-/

namespace Lox

variable {early late : Prop} {w : Layout} {gaps : Gaps} {env env' : Environment} {T : Twin}

/-! ## Making functions and classes -/

theorem agree_newObject :
    Agree early late (fun _ i i' => i' = i) w Eval.newObject Eval.newObject := by
  refine .modifyGet fun s s' hs => ⟨w, w.later_refl, ?_, hs.nextObject⟩
  exact { hs with nextObject := congrArg (· + 1) hs.nextObject }

theorem agree_newClosure (hsited : T.Sited w gaps env env')
    {decl decl' : FunDecl} (hdecl : FunDecl.Thins T gaps decl decl') {role : Role}
    (hrole : role = .initializer → ∃ outer, gaps = false :: outer) :
    Agree early late
      (fun w' f f' => Closure.Thins w' f f' ∧ f.decl = decl ∧ f'.decl = decl') w
      (Eval.newClosure env role decl) (Eval.newClosure env' role decl') := by
  refine agree_newObject.bind fun w₁ i i' hw hi => .pure ⟨?_, rfl, rfl⟩
  exact ⟨hi, rfl, T, gaps, hsited.mono hw, hdecl, hrole⟩

theorem agree_newMethod (hsited : T.Sited w gaps env env')
    {decl decl' : FunDecl} (hdecl : FunDecl.Thins T (false :: gaps) decl decl') (role : Role) :
    Agree early late (Closure.MethodThins) w (Eval.newClosure env role decl)
      (Eval.newClosure env' role decl') := by
  refine agree_newObject.bind fun w₁ i i' hw hi => .pure ?_
  exact ⟨hi, rfl, T, gaps, hsited.mono hw, hdecl⟩

theorem agree_mount (henv : Environment.Thins w gaps env env') (x : String) {v v' : Value}
    (hv : Value.Thins w v v') :
    Agree early late (fun w' e e' => Environment.Thins w' (false :: gaps) e e') w
      (Eval.mount env x v) (Eval.mount env' x v') := by
  refine (agree_enter henv).bind fun w₁ e e' hw henv₁ => ?_
  exact (agree_define henv₁ x (hv.mono hw)).bind fun w₂ _ _ hw₂ _ => .pure (henv₁.mono hw₂)

theorem agree_bindThis {f f' : Closure} (hf : Closure.MethodThins w f f') {v v' : Value}
    (hv : Value.Thins w v v') :
    Agree early late
      (fun w' g g' => Closure.Thins w' g g' ∧ g.decl = f.decl ∧ g'.decl = f'.decl) w
      (Eval.bindThis f v) (Eval.bindThis f' v') := by
  obtain ⟨-, hrole, T, gaps, hsited, hdecl⟩ := hf
  rw [Eval.bindThis_eq, Eval.bindThis_eq, hrole]
  exact (agree_mount hsited.env "this" hv).bind fun w₁ e e' hw henv =>
    agree_newClosure ⟨hw.knows hsited.known, henv⟩ hdecl fun _ => ⟨gaps, rfl⟩

theorem agree_newInstance {cls cls' : Class} (hcls : Class.Thins w cls cls') :
    Agree early late (Value.Thins) w (Eval.newInstance cls) (Eval.newInstance cls') := by
  refine .modifyGet fun s s' hs => ⟨w, w.later_refl, ?_, ?_⟩
  · exact { hs with fields := ⟨by simp [hs.fields.size],
      Bindings.alike_push hs.fields.size hs.fields.bindings⟩ }
  · simp only [hs.fields.size]
    exact .object hcls

theorem agree_setField (i : InstanceId) (x : String) {v v' : Value} (hv : Value.Thins w v v') :
    Agree early late (fun _ _ _ => True) w (Eval.setField i x v) (Eval.setField i x v') := by
  refine .modify fun s s' hs => ⟨w, w.later_refl, ?_, trivial⟩
  exact { hs with fields := ⟨by simp [hs.fields.size],
    Bindings.alike_modify_set hs.fields.size hs.fields.bindings hv i x⟩ }

theorem agree_property (i : InstanceId) {cls cls' : Class} (hcls : Class.Thins w cls cls')
    (name : Token) :
    Agree early late (Value.Thins) w (Eval.property i cls name) (Eval.property i cls' name) := by
  refine .get fun s s' hs => ?_
  rcases option_rel_cases ((hs.fields.bindings i).find? (fun heq => heq) name.lexeme) with
    ⟨hnone, hnone'⟩ | ⟨v, v', hv, hv', hthin⟩
  · rw [hnone, hnone']
    rcases option_rel_cases (hcls.findMethod? name.lexeme) with
      ⟨hnone, hnone'⟩ | ⟨f, f', hf, hf', hmethod⟩
    · rw [hnone, hnone']
      exact .fault
    · rw [hf, hf']
      exact (agree_bindThis hmethod (.object hcls)).bind fun _ _ _ _ hg => .pure (.closure hg.1)
  · rw [hv, hv']
    exact .pure hthin

theorem agree_superMethod (hsited : T.Sited w gaps env env') {id : NodeId}
    (hid : T.RefersSuper gaps id) (method : Token) :
    Agree early late (Value.Thins) w (Eval.superMethod env id method)
      (Eval.superMethod env' (T.renumber id) method) := by
  obtain ⟨hmem, k, k', hk, hk', hsuper, hthis⟩ := hid
  have hinner : ∀ k : Nat, ((k + 1 : Nat) : Int) - 1 = k := fun k => by omega
  refine .get fun s s' hs => ?_
  rw [(hs.recorded hsited.known).hops id hmem, (hs.recorded hsited.known).hops' id hmem, hk, hk']
  simp only [hinner]
  refine (agree_readAt hsited.env hsuper "super").bind fun w₁ v v' hw₁ hv => ?_
  refine (agree_readAt (hsited.env.mono hw₁) hthis "this").bind fun w₂ u u' hw₂ hu => ?_
  cases hv with
  | classObject hcls =>
      rcases option_rel_cases ((hcls.mono hw₂).findMethod? method.lexeme) with
        ⟨hnone, hnone'⟩ | ⟨f, f', hf, hf', hmethod⟩
      · simp only [hnone, hnone']
        exact .fault
      · simp only [hf, hf']
        exact (agree_bindThis hmethod hu).bind fun _ _ _ _ hg => .pure (.closure hg.1)
  | _ => exact .stuck

/-! ## Declaring classes -/

theorem agree_newMethods (hsited : T.Sited w gaps env env')
    {decls decls' : List FunDecl} (hdecls : MethodsThin T (false :: gaps) decls decls')
    {own own' : Bindings Closure}
    (hown : Bindings.Alike (Closure.MethodThins w) (fun x => x) own own') :
    Agree early late (fun w' => Bindings.Alike (Closure.MethodThins w') (fun x => x)) w
      (Eval.newMethods env own decls) (Eval.newMethods env' own' decls') := by
  induction decls generalizing w decls' own own' with
  | nil =>
      cases hdecls with
      | nil => exact .pure hown
  | cons decl decls ih =>
      cases hdecls with
      | @cons _ _ decl' _ decls' hdecl hdecls =>
          have hrole : Role.ofMethod decl' = Role.ofMethod decl := by
            unfold Role.ofMethod
            rw [hdecl.name_eq]
          unfold Eval.newMethods
          rw [hrole, hdecl.name_eq]
          refine (agree_newMethod hsited hdecl _).bind fun w₁ f f' hw hf => ?_
          exact ih (hsited.mono hw) hdecls ((hown.imp fun h => h.mono hw).set (fun heq => heq) _ hf)

theorem agree_superclass (hsited : T.Sited w gaps env env')
    {base base' : Option (NodeId × Token)} (hbase : SuperclassThin T gaps base base') :
    Agree early late
      (fun w' b b' => Option.Rel (Class.Thins w') b b' ∧ b.isSome = base.isSome) w
      (Eval.superclass env base) (Eval.superclass env' base') := by
  cases hbase with
  | none => exact .pure ⟨.none, rfl⟩
  | some hid =>
      refine (agree_lookUp hsited hid _).bind fun w₁ v v' hw hv => ?_
      cases hv with
      | classObject hcls => exact .pure ⟨.some hcls, rfl⟩
      | _ => exact .fault

theorem agree_methodEnv (henv : Environment.Thins w gaps env env')
    (base : Option (NodeId × Token)) {b b' : Option Class}
    (hb : Option.Rel (Class.Thins w) b b') (hsame : b.isSome = base.isSome) :
    Agree early late (fun w' e e' => Environment.Thins w' (Gaps.ofClass gaps base) e e') w
      (Eval.methodEnv env b) (Eval.methodEnv env' b') := by
  cases hb with
  | none =>
      cases base with
      | none => exact .pure henv
      | some _ => cases hsame
  | some hcls =>
      cases base with
      | none => cases hsame
      | some _ => exact agree_mount henv "super" (.classObject hcls)

theorem agree_declareClass (hsited : T.Sited w (false :: gaps) env env') (name : Token)
    {base base' : Option (NodeId × Token)}
    (hbase : SuperclassThin T (false :: gaps) base base') {decls decls' : List FunDecl}
    (hdecls : MethodsThin T (false :: Gaps.ofClass (false :: gaps) base) decls decls') :
    Agree early late (fun _ _ _ => True) w (Eval.declareClass env name base decls)
      (Eval.declareClass env' name base' decls') := by
  unfold Eval.declareClass
  refine (agree_superclass hsited hbase).bind fun w₁ b b' hw₁ ⟨hb, hsame⟩ => ?_
  refine (agree_define (hsited.env.mono hw₁) name.lexeme .nil).bind fun w₂ _ _ hw₂ _ => ?_
  have hb₂ : Option.Rel (Class.Thins w₂) b b' := by
    cases hb with
    | none => exact .none
    | some hcls => exact .some (hcls.mono hw₂)
  have hsited₂ := (hsited.mono hw₁).mono hw₂
  refine (agree_methodEnv hsited₂.env base hb₂ hsame).bind fun w₃ e e' hw₃ he => ?_
  refine (agree_newMethods ⟨hw₃.knows hsited₂.known, he⟩ hdecls .nil).bind
    fun w₄ own own' hw₄ hown => ?_
  refine agree_newObject.bind fun w₅ i i' hw₅ hi => ?_
  subst hi
  have hcls : Class.Thins w₅ (.mk i' name.lexeme b own) (.mk i' name.lexeme b' own') := by
    have hown₅ : Bindings.Alike (Closure.MethodThins w₅) (fun x => x) own own' :=
      hown.imp fun h => h.mono hw₅
    cases hb₂ with
    | none => exact .root hown₅
    | some hcls => exact .derived (((hcls.mono hw₃).mono hw₄).mono hw₅) hown₅
  exact agree_walkAssign (((hsited₂.env.mono hw₃).mono hw₄).mono hw₅) name (.classObject hcls)

/-! ## Calls -/

inductive Completion.Thins (w : Layout) : Completion → Completion → Prop where
  | normal : Completion.Thins w .normal .normal
  | returned : Value.Thins w v v' → Completion.Thins w (.returned v) (.returned v')

theorem Completion.Thins.value {r r' : Completion} (h : Completion.Thins w r r') :
    Value.Thins w r.value r'.value := by
  cases h with
  | normal => exact .nil
  | returned hv => exact hv

def RunsAgree (early late : Prop) (run run' : Environment → List Stmt → Eval Completion) : Prop :=
  ∀ {w : Layout} {T : Twin} {gaps : Gaps} {env env' : Environment} {ss ss' : List Stmt},
    T.Sited w gaps env env' → BodyThins T gaps ss ss' →
      Agree early late (Completion.Thins) w (run env ss) (run' env' ss')

theorem agree_nested {α β : Type} {R : Layout → α → β → Prop} {x : Eval α} {y : Eval β} (t : Token)
    (h : Agree early late R w x y) : Agree early late R w (Eval.nested t x) (Eval.nested t y) := by
  intro s s' hs
  have left : ∀ {w₁ : Layout} {s₁ s₁' : Session}, Session.Thins w₁ s₁ s₁' →
      Session.Thins w₁ { s₁ with depth := s₁.depth - 1 } { s₁' with depth := s₁'.depth - 1 } :=
    fun hs₁ => { hs₁ with depth := congrArg (· - 1) hs₁.depth }
  unfold Eval.nested
  by_cases hblank : s.limits.calls = .blank
  · have hblank' : s'.limits.calls = .blank := hs.limits ▸ hblank
    rw [if_pos hblank, if_pos hblank']
    exact .error w.later_refl hs .same
  have hblank' : ¬ s'.limits.calls = .blank := hs.limits ▸ hblank
  rw [if_neg hblank, if_neg hblank']
  have hsame : s'.limits.exceeded (s'.depth + 1) = s.limits.exceeded (s.depth + 1) := by
    rw [hs.limits, hs.depth]
  by_cases hdeep : s.limits.exceeded (s.depth + 1) = true
  · rw [if_pos hdeep, if_pos (hsame.trans hdeep)]
    exact .error w.later_refl hs .same
  rw [if_neg hdeep, if_neg (hsame ▸ hdeep)]
  have hend := h { s with depth := s.depth + 1 } { s' with depth := s'.depth + 1 }
    { hs with depth := congrArg (· + 1) hs.depth }
  generalize x { s with depth := s.depth + 1 } = r at hend ⊢
  generalize y { s' with depth := s'.depth + 1 } = r' at hend ⊢
  cases hend with
  | ok hw hs₁ hR => exact .ok hw (left hs₁) hR
  | error hw hs₁ hi => exact .error hw (left hs₁) hi
  | early h => exact .early h
  | late h => exact .late h

theorem agree_open {f f' : Closure} (hf : Closure.Thins w f f') {args args' : List Value}
    (hargs : List.Forall₂ (Value.Thins w) args args') :
    Agree early late
      (fun w' e e' => ∃ (T : Twin) (gaps : Gaps), T.Sited w' gaps e e' ∧
        BodyThins T gaps f.decl.body f'.decl.body) w
      (Eval.open f args) (Eval.open f' args') := by
  obtain ⟨-, -, T, gaps, hsited, hdecl, -⟩ := hf
  unfold Eval.open
  rw [hdecl.params_eq]
  refine (agree_enter hsited.env).bind fun w₁ e e' hw₁ he => ?_
  refine (agree_defineAll he f.decl.params (thins_mono_all hw₁ hargs)).bind fun w₂ _ _ hw₂ _ => ?_
  exact .pure ⟨T, _, ⟨hw₂.knows (hw₁.knows hsited.known), he.mono hw₂⟩, hdecl.body⟩

section

variable {run run' : Environment → List Stmt → Eval Completion}

theorem agree_activate (hrun : RunsAgree early late run run') {f f' : Closure}
    (hf : Closure.Thins w f f') {args args' : List Value}
    (hargs : List.Forall₂ (Value.Thins w) args args') :
    Agree early late (Value.Thins) w (Eval.activate run f args) (Eval.activate run' f' args') := by
  rw [Eval.activate_eq, Eval.activate_eq, hf.role_eq]
  refine (agree_open hf hargs).bind fun w₁ e e' hw₁ ⟨T, gaps, hsited, hbody⟩ => ?_
  refine (hrun hsited hbody).bind fun w₂ r r' hw₂ hr => ?_
  split
  · next hinitializer =>
      obtain ⟨-, -, _, _, hclosed, -, hthis⟩ := hf
      obtain ⟨outer, rfl⟩ := hthis hinitializer
      exact agree_readAt ((hclosed.env.mono hw₁).mono hw₂) .here "this"
  · exact .pure hr.value

theorem agree_instantiate (hrun : RunsAgree early late run run') {cls cls' : Class}
    (hcls : Class.Thins w cls cls') {args args' : List Value}
    (hargs : List.Forall₂ (Value.Thins w) args args') :
    Agree early late (Value.Thins) w (Eval.instantiate run cls args)
      (Eval.instantiate run' cls' args') := by
  unfold Eval.instantiate
  refine (agree_newInstance hcls).bind fun w₁ v v' hw₁ hv => ?_
  rcases option_rel_cases (hcls.findMethod? initializerName) with
    ⟨hnone, hnone'⟩ | ⟨f, f', hf, hf', hmethod⟩
  · simp only [Class.initializer?, hnone, hnone']
    exact .pure hv
  · simp only [Class.initializer?, hf, hf']
    refine (agree_bindThis (hmethod.mono hw₁) hv).bind fun w₂ g g' hw₂ hg => ?_
    refine (agree_activate hrun hg.1 (thins_mono_all hw₂ (thins_mono_all hw₁ hargs))).bind
      fun w₃ _ _ hw₃ _ => ?_
    exact .pure ((hv.mono hw₂).mono hw₃)

end

theorem agree_checkCall (t : Token) {v v' : Value} (hv : Value.Thins w v v') (count : Nat) :
    Agree early late (fun _ _ _ => v.arity? = some count) w (Eval.checkCall t v count)
      (Eval.checkCall t v' count) := by
  unfold Eval.checkCall
  rw [hv.looksLike.arity]
  cases harity : v.arity? with
  | none => exact .fault
  | some arity =>
      dsimp only
      split
      · next hcount => exact .pure (congrArg some hcount.symm)
      · exact .fault

end Lox
