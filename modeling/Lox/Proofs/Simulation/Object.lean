import Lox.Proofs.Simulation.Action

/-!
# Functions, classes and calls

What is made of code alike is alike, and so is what calls of it come to.
-/

namespace Lox

variable {ℓ : Likeness} {lockstep : Prop} {w : World} {env : Environment} {σ : Scopes}
  {ρs : List (String → String)}

/-! ## Making functions and classes -/

theorem simulates_newObject :
    Simulates ℓ lockstep (fun _ i i' => i' = i) w Eval.newObject Eval.newObject := by
  refine simulates_modifyGet fun s s' hs => ⟨w, World.later_refl w, ?_, hs.nextObject⟩
  exact { hs with nextObject := congrArg (· + 1) hs.nextObject }

theorem simulates_newClosure (env : Environment) (role : Role) (decl decl' : FunDecl) :
    Simulates ℓ lockstep (fun _ f f' => ∃ i, f = ⟨i, decl, env, role⟩ ∧ f' = ⟨i, decl', env, role⟩)
      w (Eval.newClosure env role decl) (Eval.newClosure env role decl') := by
  refine simulates_newObject.bind fun w' i i' _ hi => .pure ?_
  subst hi
  exact ⟨i', rfl, rfl⟩

theorem Role.ofMethod_ne_function (decl : FunDecl) : Role.ofMethod decl ≠ .function := by
  unfold Role.ofMethod
  split <;> nofun

theorem Eval.bindThis_eq (method : Closure) (this : Value) :
    Eval.bindThis method this = (do
      let env ← Eval.mount method.env "this" this
      Eval.newClosure env method.role method.decl) := by
  simp only [Eval.bindThis, Eval.mount, bind_assoc, pure_bind]

theorem Mounted.this {i : InstanceId} {cls home : Class} {method : Closure} {x : String}
    {inner : Environment} (h : Mounted w (.this i cls home method) method.env inner)
    (hinherits : Class.Inherits home cls) (hmem : (x, method) ∈ home.methods)
    (hcovers : Covers w method.env σ ρs) : Covers w inner (thisScope :: σ) ((fun x => x) :: ρs) := by
  obtain ⟨f, rfl, hnewest, hf, hfixture, hdeclared, hrename⟩ := h
  refine .inner hf hnewest hrename (fun {y} hy => ?_) ?_ hcovers
  · simp only [thisScope, Bindings.find?] at hy
    split at hy
    · next heq => exact heq ▸ hdeclared
    · cases hy
  · rw [hfixture]
    exact .this hinherits hmem rfl

theorem simulates_bindThis {f f' : Closure} (hf : Closure.MethodAlike ℓ w f f') {i : InstanceId}
    {cls home : Class} {v' : Value} (hv : Value.Alike ℓ w (.object i cls) v') {x : String}
    (hinherits : Class.Inherits home cls) (hmem : (x, f) ∈ home.methods) :
    Simulates ℓ lockstep
      (fun w' g g' => Closure.Alike ℓ w' g g' ∧ g.decl = f.decl ∧ g'.decl = f'.decl) w
      (Eval.bindThis f (.object i cls)) (Eval.bindThis f' v') := by
  have hmethod : f.role ≠ .function := by
    cases hv with
    | object hcls =>
        obtain ⟨_, _, _, _, _, _, _, hmade⟩ := hcls.made hinherits
        rw [(hmade.methods hmem).2.2]
        exact Role.ofMethod_ne_function f.decl
  obtain ⟨-, henv, hrole, hbounded, code, c, σ, ρs, hcode, hc, hreaches, hcovers, halike⟩ := hf
  rw [Eval.bindThis_eq, Eval.bindThis_eq, henv, hrole]
  have hmount : Simulates ℓ lockstep _ w (Eval.mount f.env "this" (.object i cls))
      (Eval.mount f.env "this" v') :=
    simulates_mount (.this i cls home f) hv hbounded
  refine hmount.bind fun w₁ e e' hw₁ ⟨he, hmounted⟩ => ?_
  subst he
  refine (simulates_newClosure _ _ _ _).imp fun {w₂ g g'} hw₂ hg => ?_
  obtain ⟨number, rfl, rfl⟩ := hg
  have hmounted₂ := hmounted.mono hw₂
  have hcovers₂ := hmounted₂.this hinherits hmem (hcovers.mono (World.le_trans hw₁ hw₂))
  obtain ⟨frame, rfl, hnewest, hframe, hfixture, -, -⟩ := hmounted₂
  refine ⟨⟨rfl, rfl, rfl, ⟨code, c, thisScope :: σ, _, hc, ?_, halike⟩,
    fun hplain => absurd hplain hmethod, fun _ => ?_⟩, rfl, rfl⟩
  · constructor
    · exact hw₂.code (hw₁.code hcode)
    · exact hreaches
    · exact hcovers₂
    · intro g hg
      rcases List.mem_cons.mp hg with rfl | hg
      · exact hframe
      · exact Nat.lt_trans (hnewest g hg) hframe
    · intro id hid
      simp only [Held, hfixture]
      exact hid
  · exact ⟨frame, f.env, i, cls, home, f, rfl, hframe, hfixture, rfl, rfl⟩

theorem simulates_newInstance {cls cls' : Class} (hcls : Class.Alike ℓ w cls cls') :
    Simulates ℓ lockstep (fun w' v v' => Value.Alike ℓ w' v v' ∧ ∃ i, v = .object i cls) w
      (Eval.newInstance cls) (Eval.newInstance cls') := by
  refine simulates_modifyGet fun s s' hs => ⟨w, World.later_refl w, ?_, ?_, s.fields.size, rfl⟩
  · exact { hs with fields := ⟨by simp [hs.fields.size],
      Bindings.alike_push hs.fields.size hs.fields.bindings⟩ }
  · simp only [hs.fields.size]
    exact .object hcls

theorem simulates_setField {i : InstanceId} {x : String} {v v' : Value}
    (hv : Value.Alike ℓ w v v') :
    Simulates ℓ lockstep (fun _ _ _ => True) w (Eval.setField i x v) (Eval.setField i x v') := by
  refine simulates_modify fun s s' hs => ⟨w, World.later_refl w, ?_, trivial⟩
  exact { hs with fields := ⟨by simp [hs.fields.size],
    Bindings.alike_modify_set hs.fields.size hs.fields.bindings hv i x⟩ }

theorem simulates_property {own : Bool} {i : InstanceId} {cls cls' : Class}
    (hcls : Class.Alike ℓ w cls cls') {name name' : Token} (hname : ℓ.word own name name') :
    Simulates ℓ lockstep (Value.Alike ℓ) w (Eval.property i cls name)
      (Eval.property i cls' name') := by
  intro s s' hs
  simp only [Eval.property, eval_get_bind_apply, hname.2]
  rcases option_rel_cases ((hs.fields.bindings i).find? (fun heq => heq) name.lexeme) with
    ⟨hfield, hfield'⟩ | ⟨v, v', hfield, hfield', hv⟩
  · rw [hfield, hfield']
    rcases option_rel_cases (hcls.findMethod? name.lexeme) with
      ⟨hmethod, hmethod'⟩ | ⟨f, f', hmethod, hmethod', hf⟩
    · rw [hmethod, hmethod']
      exact (simulates_fault hname.1 (by trivial)) s s' hs
    · rw [hmethod, hmethod']
      obtain ⟨home, hinherits, hmem⟩ := Class.home_of_findMethod? hmethod
      exact (simulates_bindThis hf (.object hcls) hinherits hmem).bind
        (fun _ _ _ _ hg => .pure (.closure hg.1)) s s' hs
  · rw [hfield, hfield']
    exact Simulates.pure hv s s' hs

/-! ## `this` and `super` -/

/-- The frame of a scope with `this` in it belongs to a bound method. -/
theorem StandsFor.this_inv {fixture : Option Fixture} {scope : Scope}
    (h : StandsFor env fixture scope) (hthis : scope.find? "this" = some true) :
    ∃ i cls home method x, fixture = some (.this i cls home method) ∧
      Class.Inherits home cls ∧ (x, method) ∈ home.methods ∧ method.env = env := by
  cases h with
  | plain hscope => cases hscope.1.symm.trans hthis
  | this hinherits hmem henv => exact ⟨_, _, _, _, _, rfl, hinherits, hmem, henv⟩
  | super => cases hthis

theorem StandsFor.super_inv {fixture : Option Fixture} {scope : Scope}
    (h : StandsFor env fixture scope) (hsuper : scope.find? "super" = some true) :
    ∃ base, fixture = some (.super base) := by
  cases h with
  | plain hscope => cases hscope.2.symm.trans hsuper
  | this _ _ _ => cases hsuper
  | super => exact ⟨_, rfl⟩

section

variable {code : Code} {c : Context} {part : Part} {id : NodeId} {k : Nat}

theorem simulates_self (hsited : Sited w code c σ ρs env part) (hid : id ∈ part.ids)
    (htable : code.table id = some k) (hthis : σ.Holds k "this") {keyword keyword' : Token}
    (hlexeme : keyword.lexeme = "this") (hkeyword : ℓ.word code.own keyword keyword') :
    Simulates ℓ lockstep (Value.Alike ℓ) w (Eval.lookUp env id keyword)
      (Eval.lookUp env (code.renumber id) keyword') := by
  intro s s' hs
  have hmem := hsited.id_mem hid
  simp only [Eval.lookUp, eval_get_bind_apply, hs.recorded.table hsited.accepted hmem,
    hs.recorded'.table hsited.accepted hmem, htable, hkeyword.2, hlexeme]
  obtain ⟨scope, hscope, htrue⟩ := hthis
  obtain ⟨f, outer, hframe⟩ := hsited.covers.frame hscope
  obtain ⟨i, cls, home, method, x, hfixture, -⟩ := hframe.standsFor.this_inv htrue
  exact (simulates_readAt_fixture hframe.drop hfixture).imp (fun _ h => h.2) s s' hs

/-- The frame of `super`, right around that of `this`, has the superclass of the class that the method
belongs to. -/
theorem superclass_of_frames {cls cls' : Class} (hcls : Class.Alike ℓ w cls cls') {home base : Class}
    {method : Closure} {x : String} (hinherits : Class.Inherits home cls)
    (hmem : (x, method) ∈ home.methods) {g : FrameId} {outer : Environment}
    (henv : method.env = g :: outer) (hsuper : w.fixture g = some (.super base)) :
    home.superclass = some base := by
  obtain ⟨_, _, _, _, _, _, env, hmade⟩ := hcls.made hinherits
  obtain ⟨-, hmethod, -⟩ := hmade.methods hmem
  exact (hmade.superclass base).mpr ⟨g, outer, hmethod.symm.trans henv, hsuper⟩

theorem simulates_superMethod (hsited : Sited w code c σ ρs env part) (hid : id ∈ part.ids)
    (htable : code.table id = some (k + 1)) (hsuper : σ.Holds (k + 1) "super")
    (hthis : σ.Holds k "this") {method method' : Token} (hmethod : ℓ.word code.own method method') :
    Simulates ℓ lockstep (Value.Alike ℓ) w (Eval.superMethod env id method)
      (Eval.superMethod env (code.renumber id) method') := by
  have hk : ((k + 1 : Nat) : Int) - 1 = k := by omega
  obtain ⟨scope, hscope, htrue⟩ := hthis
  obtain ⟨f, outer, hthis⟩ := hsited.covers.frame hscope
  obtain ⟨i, cls, home, owner, x, hfixture, hinherits, hmem, henv⟩ := hthis.standsFor.this_inv htrue
  obtain ⟨scope', hscope', htrue'⟩ := hsuper
  obtain ⟨g, outer', hsuper⟩ := hsited.covers.frame hscope'
  obtain ⟨base, hbase⟩ := hsuper.standsFor.super_inv htrue'
  have houter : outer = g :: outer' := by
    have hdrop := hsuper.drop
    rw [← List.drop_drop, hthis.drop] at hdrop
    exact hdrop
  intro s s' hs
  have hid := hsited.id_mem hid
  simp only [Eval.superMethod, eval_get_bind_apply, hs.recorded.table hsited.accepted hid,
    hs.recorded'.table hsited.accepted hid, htable, hmethod.2, hk]
  have hreadSuper : Simulates ℓ lockstep _ w (Eval.readAt env (k + 1 : Nat) "super")
      (Eval.readAt env (k + 1 : Nat) "super") :=
    simulates_readAt_fixture hsuper.drop hbase
  refine hreadSuper.bind ?_ s s' hs
  rintro w₁ v v' hw₁ ⟨hv, hvalike⟩
  have hreadThis : Simulates ℓ lockstep _ w₁ (Eval.readAt env k "this") (Eval.readAt env k "this") :=
    simulates_readAt_fixture hthis.drop ((hw₁.fixture hthis.lt).trans hfixture)
  refine hreadThis.bind ?_
  rintro w₂ u u' hw₂ ⟨hu, hualike⟩
  subst hv hu
  cases hvalike with
  | classObject hclass =>
      rcases option_rel_cases (hclass.findMethod? method.lexeme) with
        ⟨hfound, hfound'⟩ | ⟨found, found', hfound, hfound', halike⟩
      · simp only [Fixture.value, hfound, hfound']
        exact simulates_fault hmethod.1 (by trivial)
      · simp only [Fixture.value, hfound, hfound']
        have hlater : w ≤ w₂ := World.le_trans hw₁ hw₂
        obtain ⟨cls', hcls⟩ : ∃ cls', Class.Alike ℓ w₂ cls cls' := by
          cases hualike with
          | object hcls => exact ⟨_, hcls⟩
        have hhome := superclass_of_frames hcls hinherits hmem (henv.trans houter)
          ((hlater.fixture hsuper.lt).trans hbase)
        obtain ⟨home', hinherits', hmem'⟩ := Class.home_of_findMethod? hfound
        exact (simulates_bindThis (halike.mono hw₂) hualike
          ((hinherits.superclass hhome).trans hinherits') hmem').bind
          fun _ _ _ _ hg => .pure (.closure hg.1)

end

/-! ## Declaring classes -/

theorem Bindings.mem_set {α : Type} {b : Bindings α} {x y : String} {v u : α}
    (h : (y, u) ∈ b.set x v) : (y = x ∧ u = v) ∨ (y, u) ∈ b := by
  induction b with
  | nil =>
      simp only [Bindings.set, List.mem_singleton, Prod.mk.injEq] at h
      exact .inl h
  | cons entry b ih =>
      obtain ⟨key, old⟩ := entry
      simp only [Bindings.set] at h
      split at h
      · rcases List.mem_cons.mp h with h | h
        · exact .inl (Prod.mk.inj h)
        · exact .inr (List.mem_cons_of_mem _ h)
      · rcases List.mem_cons.mp h with h | h
        · exact .inr (h ▸ List.mem_cons_self)
        · exact (ih h).imp_right (List.mem_cons_of_mem _)

section

variable {code : Code} {c : Context}

/-- Methods made of some declarations in an environment. -/
def MethodsOf (all : List FunDecl) (env : Environment) (own : Bindings Closure) : Prop :=
  ∀ {x method}, (x, method) ∈ own → method.decl ∈ all ∧ method.env = env ∧
    method.role = .ofMethod method.decl

theorem simulates_newMethods {all decls decls' : List FunDecl} {own own' : Bindings Closure}
    (hcode : w.code code) (hcovers : Covers w env σ ρs) (hbounded : ∀ f ∈ env, f < w.frames)
    (hreaches : Reaches code.part c (thisScope :: σ) (.methods decls))
    (halike : MethodsAlike ℓ code ((fun x => x) :: ρs) decls decls')
    (hown : Bindings.Alike (Closure.MethodAlike ℓ w) (fun x => x) own own')
    (hall : ∀ decl ∈ decls, decl ∈ all) (hmethods : MethodsOf all env own) :
    Simulates ℓ lockstep
      (fun w' o o' => Bindings.Alike (Closure.MethodAlike ℓ w') (fun x => x) o o' ∧
        MethodsOf all env o) w
      (Eval.newMethods env own decls) (Eval.newMethods env own' decls') := by
  induction decls generalizing w decls' own own' with
  | nil =>
      cases halike with
      | nil => exact .pure ⟨hown, hmethods⟩
  | cons decl decls ih =>
      cases halike with
      | @cons _ _ decl' _ decls' hdecl hdecls =>
          have hrole : Role.ofMethod decl' = Role.ofMethod decl := by
            unfold Role.ofMethod
            rw [hdecl.name.2]
          unfold Eval.newMethods
          rw [hrole, hdecl.name.2]
          refine (simulates_newClosure _ _ _ _).bind fun w₁ f f' hw₁ hf => ?_
          obtain ⟨i, rfl, rfl⟩ := hf
          have hbounded₁ : ∀ f ∈ env, f < w₁.frames :=
            fun f hf => Nat.lt_of_lt_of_le (hbounded f hf) hw₁.frames
          have hmethod : Closure.MethodAlike ℓ w₁ ⟨i, decl, env, .ofMethod decl⟩
              ⟨i, decl', env, .ofMethod decl⟩ :=
            ⟨rfl, rfl, rfl, hbounded₁, code, _, σ, ρs, hw₁.code hcode, by simp,
              hreaches.firstMethod, hcovers.mono hw₁, hdecl⟩
          refine ih (hw₁.code hcode) (hcovers.mono hw₁) hbounded₁ hreaches.moreMethods hdecls
            ((hown.imp fun h => h.mono hw₁).set (fun heq => heq) _ hmethod)
            (fun d hd => hall d (List.mem_cons_of_mem _ hd)) ?_
          intro x method hmem
          rcases Bindings.mem_set hmem with ⟨-, rfl⟩ | hmem
          · exact ⟨hall decl List.mem_cons_self, rfl, rfl⟩
          · exact hmethods hmem

theorem simulates_superclass {name : Token} {base base' : Option (NodeId × Token)}
    {decls : List FunDecl}
    (hsited : Sited w code c σ ρs env (.stmt (.classDecl name base decls)))
    (hbase : SuperclassAlike ℓ code ρs base base') :
    Simulates ℓ lockstep
      (fun w' b b' => Option.Rel (Class.Alike ℓ w') b b' ∧ b.isSome = base.isSome) w
      (Eval.superclass env base) (Eval.superclass env base') := by
  cases hbase with
  | none => exact .pure ⟨.none, rfl⟩
  | some _ htoken hname =>
      obtain ⟨htable, hholds⟩ := hsited.checked.superclass
      refine (simulates_lookUp hsited List.mem_cons_self htable hholds htoken hname).bind
        fun w₁ v v' hw₁ hv => ?_
      cases hv with
      | classObject hcls => exact .pure ⟨.some hcls, rfl⟩
      | _ => exact simulates_fault htoken (by trivial)

/-- The environment of the methods of a class: `super` is in it just if there is a superclass. -/
structure Methods (w : World) (σ : Scopes) (ρs : List (String → String))
    (base : Option (NodeId × Token)) (b : Option Class) (e : Environment) : Prop where
  covers : ∃ τ τs, Covers w e τ τs ∧ σ.ofClass base = thisScope :: τ ∧
    renamingsOfClass ρs base = (fun x => x) :: τs
  bounded : ∀ f ∈ e, f < w.frames
  superclass : ∀ cls, b = some cls ↔
    ∃ frame outer, e = frame :: outer ∧ w.fixture frame = some (.super cls)

theorem simulates_methodEnv (hcovers : Covers w env σ ρs) (hopen : σ.Open)
    (base : Option (NodeId × Token)) {b b' : Option Class}
    (hbase : Option.Rel (Class.Alike ℓ w) b b') (hsame : b.isSome = base.isSome) :
    Simulates ℓ lockstep (fun w' e e' => e' = e ∧ Methods w' σ ρs base b e) w
      (Eval.methodEnv env b) (Eval.methodEnv env b') := by
  refine .of_alike fun s s' hs => ?_
  have hlt := hcovers.lt_frames hs.frames.globals
  cases hbase with
  | none =>
      cases base with
      | some _ => cases hsame
      | none =>
          obtain ⟨f, outer, henv, -, -, hfree, -⟩ := hcovers.innermost hopen hs.frames
          refine .pure ⟨rfl, ⟨σ, ρs, hcovers, rfl, rfl⟩, hlt, fun cls => ⟨nofun, ?_⟩⟩
          rintro ⟨frame, outer', henv', hframe⟩
          obtain ⟨rfl, rfl⟩ := List.cons.inj (henv.symm.trans henv')
          cases hfree.symm.trans hframe
  | @some cls cls' hcls =>
      cases base with
      | none => cases hsame
      | some base =>
          have hmount : Simulates ℓ lockstep _ w (Eval.mount env "super" (.classObject cls))
              (Eval.mount env "super" (.classObject cls')) :=
            simulates_mount (.super cls) (.classObject hcls) hlt
          refine hmount.imp fun {w₁ e e'} hw₁ ⟨he, hmounted⟩ => ⟨he, ?_⟩
          obtain ⟨f, rfl, hnewest, hf, hfixture, hdeclared, hrename⟩ := hmounted
          constructor
          · refine ⟨superScope :: σ, (fun x => x) :: ρs, ?_, rfl, rfl⟩
            refine .inner hf hnewest hrename (fun {y} hy => ?_) ?_ (hcovers.mono hw₁)
            · simp only [superScope, Bindings.find?] at hy
              split at hy
              · next heq => exact heq ▸ hdeclared
              · cases hy
            · rw [hfixture]
              exact .super
          · intro g hg
            rcases List.mem_cons.mp hg with rfl | hg
            · exact hf
            · exact Nat.lt_trans (hnewest g hg) hf
          · intro other
            constructor
            · rintro ⟨⟩
              exact ⟨f, env, rfl, hfixture⟩
            · rintro ⟨frame, outer, henv, hframe⟩
              obtain ⟨rfl, rfl⟩ := List.cons.inj henv
              cases hfixture.symm.trans hframe
              rfl

theorem Methods.mono {w' : World} (hw : w ≤ w') {base : Option (NodeId × Token)}
    {b : Option Class} {e : Environment} (h : Methods w σ ρs base b e) :
    Methods w' σ ρs base b e := by
  obtain ⟨⟨τ, τs, hcovers, hτ, hτs⟩, hbounded, hsuperclass⟩ := h
  refine ⟨⟨τ, τs, hcovers.mono hw, hτ, hτs⟩,
    fun f hf => Nat.lt_of_lt_of_le (hbounded f hf) hw.frames, fun cls => ?_⟩
  rw [hsuperclass]
  constructor
  · rintro ⟨frame, outer, rfl, hframe⟩
    exact ⟨frame, outer, rfl, (hw.fixture (hbounded _ List.mem_cons_self)).trans hframe⟩
  · rintro ⟨frame, outer, rfl, hframe⟩
    exact ⟨frame, outer, rfl, (hw.fixture (hbounded _ List.mem_cons_self)).symm.trans hframe⟩

theorem simulates_declareClass {name name' : Token} {base base' : Option (NodeId × Token)}
    {decls decls' : List FunDecl}
    (hsited : Sited w code c σ ρs env (.stmt (.classDecl name base decls)))
    (hname : ℓ.word code.own name name') (hhere : renameHere ρs name.lexeme = name.lexeme)
    (hbase : SuperclassAlike ℓ code ρs base base')
    (hdecls : MethodsAlike ℓ code (renamingsOfClass ρs base) decls decls') :
    Simulates ℓ lockstep (fun w' _ _ => Covers w' env (σ.settle name) ρs) w
      (Eval.declareClass env name base decls) (Eval.declareClass env name' base' decls') := by
  have hplain := hsited.checked.className
  have hopened := hsited.checked.placed.1
  unfold Eval.declareClass
  rw [hname.2]
  refine (simulates_superclass hsited hbase).bind fun w₁ b b' hw₁ ⟨hb, hsame⟩ => ?_
  have hdefine : Simulates ℓ lockstep _ w₁ (Eval.define env name.lexeme .nil)
      (Eval.define env (renameHere ρs name.lexeme) .nil) :=
    simulates_define (hsited.covers.mono hw₁) hopened.open (fun _ => hplain) fun _ _ _ => .nil
  rw [hhere] at hdefine
  refine hdefine.bind fun w₂ _ _ hw₂ ⟨hcovers₂, hbinds⟩ => ?_
  rw [← Scopes.settle_eq_put] at hcovers₂
  have hb₂ : Option.Rel (Class.Alike ℓ w₂) b b' := by
    cases hb with
    | none => exact .none
    | some hcls => exact .some (hcls.mono hw₂)
  refine (simulates_methodEnv hcovers₂ (hopened.settle hplain).open base hb₂ hsame).bind
    fun w₃ e e' hw₃ ⟨he, henv⟩ => ?_
  subst he
  obtain ⟨τ, τs, hcovers₃, hτ, hτs⟩ := henv.covers
  have hmethods := hsited.reaches.methods
  rw [hτ] at hmethods
  rw [hτs] at hdecls
  have hcode₃ := hw₃.code (hw₂.code (hw₁.code hsited.accepted))
  refine (simulates_newMethods hcode₃ hcovers₃ henv.bounded hmethods hdecls .nil (fun _ h => h)
    nofun).bind fun w₄ own own' hw₄ ⟨hown, hof⟩ => ?_
  refine simulates_newObject.bind fun w₅ i i' hw₅ hi => ?_
  subst hi
  have hmade : Class.Made w₅ (.mk i' name.lexeme b own) := by
    have henv₅ := henv.mono (World.le_trans hw₄ hw₅)
    exact ⟨code, c, σ, name, base, decls, e', hw₅.code (hw₄.code hcode₃), hsited.reaches, rfl,
      henv₅.bounded, hof, hsame, henv₅.superclass⟩
  have hcls : Class.Alike ℓ w₅ (.mk i' name.lexeme b own) (.mk i' name.lexeme b' own') := by
    have hown₅ : Bindings.Alike (Closure.MethodAlike ℓ w₅) (fun x => x) own own' :=
      hown.imp fun h => h.mono hw₅
    cases hb₂ with
    | none => exact .root hmade hown₅
    | some hcls => exact .derived hmade (((hcls.mono hw₃).mono hw₄).mono hw₅) hown₅
  have hlater := World.le_trans hw₃ (World.le_trans hw₄ hw₅)
  exact (simulates_walkAssign_here (hcovers₂.mono hlater) (hopened.settle hplain).open
    (hname.2.trans hhere.symm) hplain (hbinds.mono hlater) (.classObject hcls)).imp fun hw _ =>
      hcovers₂.mono (World.le_trans hlater hw)

end

end Lox
