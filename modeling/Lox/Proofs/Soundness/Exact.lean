import Lox.Proofs.History.Steps

/-!
# Code and values that differ in nothing but numbers

If tokens may differ in their lines only, then code alike is the same further down, but for the numbers
of references.  If they may not differ at all, values alike are the same but for these numbers.  Under
the exact likeness numbers may not differ either.  It compares a session with itself: what it says is that
the session holds together.
-/

namespace Lox

/-! ## Renumbered values -/

section

variable (ν : NodeId → NodeId)

def Closure.renumber (f : Closure) : Closure :=
  { f with decl := f.decl.moved 0 ν }

def Bindings.mapValues {α β : Type} (f : α → β) (b : Bindings α) : Bindings β :=
  b.map fun entry => (entry.1, f entry.2)

def Class.renumber : Class → Class
  | .mk id name none own => .mk id name none (own.mapValues (Closure.renumber ν))
  | .mk id name (some base) own =>
      .mk id name (some base.renumber) (own.mapValues (Closure.renumber ν))

def Value.renumber : Value → Value
  | .closure f => .closure (f.renumber ν)
  | .classObject cls => .classObject (cls.renumber ν)
  | .object id cls => .object id (cls.renumber ν)
  | v => v

end

theorem Closure.renumber_id (f : Closure) : f.renumber (fun id => id) = f := by
  unfold Closure.renumber
  rw [FunDecl.moved_zero]

theorem Bindings.mapValues_id {α : Type} {f : α → α} (hf : ∀ v, f v = v) (b : Bindings α) :
    b.mapValues f = b := by
  unfold Bindings.mapValues
  simp only [hf, List.map_id']

theorem Class.renumber_id : ∀ cls : Class, cls.renumber (fun id => id) = cls
  | .mk _ _ none own => by
      unfold Class.renumber
      rw [Bindings.mapValues_id Closure.renumber_id]
  | .mk _ _ (some base) own => by
      unfold Class.renumber
      rw [Bindings.mapValues_id Closure.renumber_id, base.renumber_id]

theorem Value.renumber_id (v : Value) : v.renumber (fun id => id) = v := by
  cases v with
  | closure f => simp only [Value.renumber, f.renumber_id]
  | classObject cls => simp only [Value.renumber, cls.renumber_id]
  | object id cls => simp only [Value.renumber, cls.renumber_id]
  | _ => rfl

/-! ## Tokens that differ at most in their lines -/

/-- In this mode tokens correspond only to themselves `k` lines further down, and numbers only to those
that `ν` maps to the same. -/
structure Likeness.Lowers (ℓ : Likeness) (own : Bool) (k : Int) (ν : NodeId → NodeId) : Prop where
  token : ∀ {t t'}, ℓ.token own t t' → t' = t.down k
  number : ∀ {id id'}, ℓ.number id id' → ν id' = ν id

section

variable {ℓ : Likeness} {own : Bool} {code : Code} {k : Int} {ν : NodeId → NodeId}

theorem Likeness.Lowers.down_zero (h : ℓ.Lowers own k ν) {t t' : Token} (ht : ℓ.token own t t') :
    t'.down 0 = t.down k :=
  (t'.down_zero).trans (h.token ht)

mutual

theorem Expr.Alike.eq (hlowers : ℓ.Lowers code.own k ν) : ∀ {ρs e e'},
    Expr.Alike ℓ code ρs e e' → e'.moved 0 ν = e.moved k ν
  | _, _, _, .literal hnumber => by simp only [Expr.moved, hlowers.number hnumber]
  | _, _, _, .grouping hnumber h => by
      simp only [Expr.moved, hlowers.number hnumber, h.eq hlowers]
  | _, _, _, .unary hnumber hop h => by
      simp only [Expr.moved, hlowers.number hnumber, hlowers.down_zero hop, h.eq hlowers]
  | _, _, _, .binary hnumber hleft hop hright | _, _, _, .logical hnumber hleft hop hright => by
      simp only [Expr.moved, hlowers.number hnumber, hleft.eq hlowers, hlowers.down_zero hop, hright.eq hlowers]
  | _, _, _, .read hnumber hname _ => by
      simp only [Expr.moved, hlowers.number hnumber, hlowers.down_zero hname]
  | _, _, _, .assign hnumber hname _ h => by
      simp only [Expr.moved, hlowers.number hnumber, hlowers.down_zero hname, h.eq hlowers]
  | _, _, _, .call hnumber hcallee hparen hargs => by
      simp only [Expr.moved, hlowers.number hnumber, hcallee.eq hlowers, hlowers.down_zero hparen, hargs.eq hlowers]
  | _, _, _, .get hnumber h hname => by
      simp only [Expr.moved, hlowers.number hnumber, h.eq hlowers, hlowers.down_zero hname.1]
  | _, _, _, .set hnumber h hname hvalue => by
      simp only [Expr.moved, hlowers.number hnumber, h.eq hlowers, hlowers.down_zero hname.1, hvalue.eq hlowers]
  | _, _, _, .self hnumber hkeyword => by
      simp only [Expr.moved, hlowers.number hnumber, hlowers.down_zero hkeyword.1]
  | _, _, _, .super hnumber hkeyword hmethod => by
      simp only [Expr.moved, hlowers.number hnumber, hlowers.down_zero hkeyword.1,
        hlowers.down_zero hmethod.1]

theorem ArgumentsAlike.eq (hlowers : ℓ.Lowers code.own k ν) : ∀ {ρs es es'},
    ArgumentsAlike ℓ code ρs es es' → movedArguments 0 ν es' = movedArguments k ν es
  | _, _, _, .nil => rfl
  | _, _, _, .cons h hmore => by simp only [movedArguments, h.eq hlowers, hmore.eq hlowers]

end

theorem paramsAlike_eq (hlowers : ℓ.Lowers code.own k ν) {ρ : String → String}
    {params params' : List Token}
    (h : List.Forall₂ (fun p p' => ℓ.token code.own p p' ∧ p'.lexeme = ρ p.lexeme) params params') :
    params'.map (Token.down 0) = params.map (Token.down k) := by
  induction h with
  | nil => rfl
  | cons hp _ ih => rw [List.map_cons, List.map_cons, hlowers.down_zero hp.1, ih]

mutual

theorem Stmt.Alike.eq (hlowers : ℓ.Lowers code.own k ν) : ∀ {ρs s s'},
    Stmt.Alike ℓ code ρs s s' → s'.moved 0 ν = s.moved k ν
  | _, _, _, .expression h | _, _, _, .print h => by simp only [Stmt.moved, h.eq hlowers]
  | _, _, _, .var hname _ => by simp only [Stmt.moved, hlowers.down_zero hname]
  | _, _, _, .initialised hname _ h => by
      simp only [Stmt.moved, hlowers.down_zero hname, h.eq hlowers]
  | _, _, _, .block _ h => by simp only [Stmt.moved, h.eq hlowers]
  | _, _, _, .ifOnly hcondition hyes => by
      simp only [Stmt.moved, hcondition.eq hlowers, hyes.eq hlowers]
  | _, _, _, .ifElse hcondition hyes hno => by
      simp only [Stmt.moved, hcondition.eq hlowers, hyes.eq hlowers, hno.eq hlowers]
  | _, _, _, .loop hcondition hbody => by
      simp only [Stmt.moved, hcondition.eq hlowers, hbody.eq hlowers]
  | _, _, _, .function _ h => by simp only [Stmt.moved, h.eq hlowers]
  | _, _, _, .ret hkeyword => by simp only [Stmt.moved, hlowers.down_zero hkeyword]
  | _, _, _, .returned hkeyword h => by
      simp only [Stmt.moved, hlowers.down_zero hkeyword, h.eq hlowers]
  | _, _, _, .classDecl hname _ hbase hdecls => by
      have hmethods := hdecls.eq hlowers
      cases hbase with
      | none => simp only [Stmt.moved, hlowers.down_zero hname.1, hmethods]
      | some hnumber hbase _ =>
          simp only [Stmt.moved, hlowers.down_zero hname.1, hlowers.number hnumber, hlowers.down_zero hbase,
            hmethods]

theorem BodyAlike.eq (hlowers : ℓ.Lowers code.own k ν) : ∀ {ρs ss ss'},
    BodyAlike ℓ code ρs ss ss' → movedBody 0 ν ss' = movedBody k ν ss
  | _, _, _, .nil => rfl
  | _, _, _, .cons h hmore => by simp only [movedBody, h.eq hlowers, hmore.eq hlowers]

theorem FunDecl.Alike.eq (hlowers : ℓ.Lowers code.own k ν) : ∀ {ρs decl decl'},
    FunDecl.Alike ℓ code ρs decl decl' → decl'.moved 0 ν = decl.moved k ν
  | _, _, _, .mk hname _ hparams hbody => by
      simp only [FunDecl.moved, hlowers.down_zero hname.1, paramsAlike_eq hlowers hparams,
        hbody.eq hlowers]

theorem MethodsAlike.eq (hlowers : ℓ.Lowers code.own k ν) : ∀ {ρs decls decls'},
    MethodsAlike ℓ code ρs decls decls' → movedMethods 0 ν decls' = movedMethods k ν decls
  | _, _, _, .nil => rfl
  | _, _, _, .cons h hmore => by simp only [movedMethods, h.eq hlowers, hmore.eq hlowers]

end

/-! ## Tokens that may not differ -/

/-- Tokens correspond only to themselves, and numbers only to those that `ν` maps to the same. -/
structure Likeness.Exact (ℓ : Likeness) (ν : NodeId → NodeId) : Prop where
  token : ∀ {own t t'}, ℓ.token own t t' → t' = t
  number : ∀ {id id'}, ℓ.number id id' → ν id' = ν id

theorem Likeness.Exact.lowers (h : ℓ.Exact ν) (own : Bool) : ℓ.Lowers own 0 ν :=
  ⟨fun {t _} ht => (h.token ht).trans t.down_zero.symm, h.number⟩

variable {w : World}

theorem Closure.renumber_eq {f f' : Closure} (hid : f'.id = f.id)
    (hdecl : f'.decl.moved 0 ν = f.decl.moved 0 ν) (henv : f'.env = f.env)
    (hrole : f'.role = f.role) : f'.renumber ν = f.renumber ν := by
  unfold Closure.renumber
  rw [hid, hdecl, henv, hrole]

theorem Closure.MethodAlike.eq (hexact : ℓ.Exact ν) {f f' : Closure}
    (h : Closure.MethodAlike ℓ w f f') : f'.renumber ν = f.renumber ν := by
  obtain ⟨hid, henv, hrole, _, _, _, _, _, _, _, _, _, hdecl⟩ := h
  exact Closure.renumber_eq hid (hdecl.eq (hexact.lowers _)) henv hrole

theorem Closure.Alike.eq (hexact : ℓ.Exact ν) {f f' : Closure}
    (h : Closure.Alike ℓ w f f') : f'.renumber ν = f.renumber ν := by
  obtain ⟨hid, henv, hrole, ⟨_, _, _, _, _, _, hdecl⟩, _, _⟩ := h
  exact Closure.renumber_eq hid (hdecl.eq (hexact.lowers _)) henv hrole

theorem Bindings.Alike.mapValues_eq {α β : Type} {R : α → α → Prop} {f : α → β}
    (hR : ∀ {v v'}, R v v' → f v' = f v) {b b' : Bindings α}
    (h : Bindings.Alike R (fun x => x) b b') : b'.mapValues f = b.mapValues f := by
  unfold Bindings.mapValues
  induction h with
  | nil => rfl
  | cons hv _ ih => simp only [List.map_cons, hR hv, ih]

theorem Class.Alike.eq (hexact : ℓ.Exact ν) {cls cls' : Class}
    (h : Class.Alike ℓ w cls cls') : cls'.renumber ν = cls.renumber ν := by
  induction h with
  | root _ hown => simp only [Class.renumber, hown.mapValues_eq fun hf => hf.eq hexact]
  | derived _ _ hown ih =>
      simp only [Class.renumber, hown.mapValues_eq fun hf => hf.eq hexact, ih]

/-- Values alike are the same but for the numbers in their code. -/
theorem Value.Alike.eq (hexact : ℓ.Exact ν) {v v' : Value}
    (h : Value.Alike ℓ w v v') : v'.renumber ν = v.renumber ν := by
  cases h with
  | closure hf => simp only [Value.renumber, hf.eq hexact]
  | classObject hcls => simp only [Value.renumber, hcls.eq hexact]
  | object hcls => simp only [Value.renumber, hcls.eq hexact]
  | _ => rfl

theorem Value.Alike.eq_self (hexact : ℓ.Exact fun id => id) {v v' : Value}
    (h : Value.Alike ℓ w v v') : v' = v := by
  have heq := h.eq hexact
  rwa [v.renumber_id, v'.renumber_id] at heq

end

/-! ## The rules of honest hosts -/

/-- The likeness under which nothing may differ. -/
def Likeness.exact (strict : Prop) : Likeness where
  token _ t t' := t' = t
  token_kind h := congrArg Token.kind h
  token_site := rfl
  number id id' := id' = id
  number_refl _ := rfl
  renames ρ := ρ = fun x => x
  renames_id := rfl
  renames_injective h := by
    subst h
    exact fun h => h
  renames_this h := by rw [h]
  renames_super h := by rw [h]
  genuine _ := Part.Accepted
  token_self _ _ _ := rfl
  strict := strict
  allowed _ := True
  reentry := True
  reentry_of_allowed _ _ := trivial
  genuine_of_accepted _ _ h := h

/-- Views in which values that have no other form are seen as they are, and so are all errors. -/
structure View.Clear (V : View) : Prop where
  basic : ∀ v, v.isBasic → V.values v v
  same : ∀ {e e'}, V.errors e e' → e' = e
  errors : ∀ {e}, e.fault.Proper → V.errors e e

/-- Honest hosts use no values but those that they have.  They may look into them. -/
def HostRules.honest (strict : Prop) : HostRules where
  view V := (∀ v v', V.values v v' → v' = v) ∧ V.Clear
  strict := strict
  allowed _ := True

theorem Likeness.view_clear {ℓ : Likeness} (hexact : ∀ {own t t'}, ℓ.token own t t' → t' = t)
    (hself : ∀ t, ℓ.token false t t) (w : World) : (ℓ.view w).Clear where
  basic _ h := Value.isBasic_alike h
  same {e e'} := by
    rintro ⟨⟨own, htoken⟩, hfault, -⟩
    cases e
    cases e'
    cases hexact htoken
    cases hfault
    rfl
  errors hproper := RuntimeError.alike_self (hself _) hproper

theorem Likeness.exact_obeys (strict : Prop) :
    (Likeness.exact strict).Obeys (HostRules.honest strict) where
  view w := ⟨fun _ _ h => h.eq_self ⟨fun h => h, fun h => h⟩, view_clear (fun h => h) (fun _ => rfl) w⟩
  strict := Iff.rfl
  allowed h := h

end Lox
