import Lox.Proofs.Simulation.World

/-!
# Values that are alike

Functions alike have code that belongs into their environments, and methods that are values are bound
to an instance.  Classes alike were made by declarations of accepted code.  Values that are alike in
a world stay alike in every later one.
-/

namespace Lox

/-! ## Functions, classes and values -/

section

variable (ℓ : Likeness) (w : World)

/-- A method that is bound to an instance. -/
def Closure.Bound (f : Closure) : Prop :=
  ∃ frame outer object cls home method, f.env = frame :: outer ∧ frame < w.frames ∧
    w.fixture frame = some (.this object cls home method) ∧ method.decl = f.decl ∧
      method.role = f.role

/-- A function that a statement of accepted code declares. -/
def Closure.Declared (f : Closure) : Prop :=
  ∃ code c σ, w.code code ∧ Reaches code.part c σ (.stmt (.function f.decl))

/-- Functions alike, whose code belongs into their environment. -/
structure Closure.Alike (f f' : Closure) : Prop where
  id_eq : f'.id = f.id
  env_eq : f'.env = f.env
  role_eq : f'.role = f.role
  placed : ∃ (code : Code) (c : Context) (σ : Scopes) (ρs : List (String → String)),
    c.inFunction ≠ none ∧ Sited w code c σ ρs f.env (.function f.decl) ∧
      FunDecl.Alike ℓ code ρs f.decl f'.decl
  declared : f.role = .function → f.Declared w
  bound : f.role ≠ .function → f.Bound w

/-- Methods alike: functions whose code also needs the scope of `this` around it. -/
structure Closure.MethodAlike (f f' : Closure) : Prop where
  id_eq : f'.id = f.id
  env_eq : f'.env = f.env
  role_eq : f'.role = f.role
  bounded : ∀ frame ∈ f.env, frame < w.frames
  placed : ∃ (code : Code) (c : Context) (σ : Scopes) (ρs : List (String → String)),
    w.code code ∧ c.inFunction ≠ none ∧
      Reaches code.part c (thisScope :: σ) (.function f.decl) ∧ Covers w f.env σ ρs ∧
      FunDecl.Alike ℓ code ((fun x => x) :: ρs) f.decl f'.decl

/-- The declaration that made a class, and the environment of its methods. -/
structure Class.MadeBy (code : Code) (c : Context) (σ : Scopes) (name : Token)
    (base : Option (NodeId × Token)) (decls : List FunDecl) (env : Environment) (cls : Class) :
    Prop where
  accepted : w.code code
  reaches : Reaches code.part c σ (.stmt (.classDecl name base decls))
  name_eq : cls.name = name.lexeme
  bounded : ∀ frame ∈ env, frame < w.frames
  methods : ∀ {x method}, (x, method) ∈ cls.methods → method.decl ∈ decls ∧
    method.env = env ∧ method.role = .ofMethod method.decl
  based : cls.superclass.isSome = base.isSome
  superclass : ∀ b, cls.superclass = some b ↔
    ∃ frame outer, env = frame :: outer ∧ w.fixture frame = some (.super b)

def Class.Made (cls : Class) : Prop :=
  ∃ code c σ name base decls env, Class.MadeBy w code c σ name base decls env cls

/-- Things bound to the same names in the same order, with the names renamed. -/
inductive Bindings.Alike {α : Type} (R : α → α → Prop) (ρ : String → String) :
    Bindings α → Bindings α → Prop where
  | nil : Bindings.Alike R ρ [] []
  | cons : R v v' → Bindings.Alike R ρ b b' → Bindings.Alike R ρ ((x, v) :: b) ((ρ x, v') :: b')

inductive Class.Alike : Class → Class → Prop where
  | root : Class.Made w (.mk number label none own) →
      Bindings.Alike (Closure.MethodAlike ℓ w) (fun x => x) own own' →
      Class.Alike (.mk number label none own) (.mk number label none own')
  | derived : Class.Made w (.mk number label (some base) own) → Class.Alike base base' →
      Bindings.Alike (Closure.MethodAlike ℓ w) (fun x => x) own own' →
      Class.Alike (.mk number label (some base) own) (.mk number label (some base') own')

inductive Value.Alike : Value → Value → Prop where
  | nil : Value.Alike .nil .nil
  | bool : Value.Alike (.bool b) (.bool b)
  | number : Value.Alike (.number x) (.number x)
  | string : Value.Alike (.string s) (.string s)
  | native : w.natives[i]? = some n → Value.Alike (.native i n) (.native i n)
  | closure : Closure.Alike ℓ w f f' → Value.Alike (.closure f) (.closure f')
  | classObject : Class.Alike ℓ w cls cls' → Value.Alike (.classObject cls) (.classObject cls')
  | object : Class.Alike ℓ w cls cls' → Value.Alike (.object i cls) (.object i cls')

end

variable {ℓ : Likeness} {w w' : World}

theorem Closure.Bound.mono (hw : w ≤ w') {f : Closure} (h : f.Bound w) : f.Bound w' := by
  obtain ⟨frame, outer, object, cls, home, method, henv, hlt, hfixture, hrest⟩ := h
  exact ⟨frame, outer, object, cls, home, method, henv, Nat.lt_of_lt_of_le hlt hw.frames,
    (hw.fixture hlt).trans hfixture, hrest⟩

theorem Closure.Alike.mono (hw : w ≤ w') {f f' : Closure} (h : Closure.Alike ℓ w f f') :
    Closure.Alike ℓ w' f f' := by
  obtain ⟨hid, henv, hrole, ⟨code, c, σ, ρs, hc, hsited, halike⟩, hdeclared, hbound⟩ := h
  refine ⟨hid, henv, hrole, ⟨code, c, σ, ρs, hc, hsited.mono hw, halike⟩, fun hplain => ?_,
    fun hmethod => (hbound hmethod).mono hw⟩
  obtain ⟨code, c, σ, hcode, hreaches⟩ := hdeclared hplain
  exact ⟨code, c, σ, hw.code hcode, hreaches⟩

theorem Closure.MethodAlike.mono (hw : w ≤ w') {f f' : Closure}
    (h : Closure.MethodAlike ℓ w f f') : Closure.MethodAlike ℓ w' f f' := by
  obtain ⟨hid, henv, hrole, hbounded, code, c, σ, ρs, hcode, hc, hreaches, hcovers, halike⟩ := h
  exact ⟨hid, henv, hrole, fun frame hframe => Nat.lt_of_lt_of_le (hbounded frame hframe) hw.frames,
    code, c, σ, ρs, hw.code hcode, hc, hreaches, hcovers.mono hw, halike⟩

theorem Class.Made.mono (hw : w ≤ w') {cls : Class} (h : cls.Made w) : cls.Made w' := by
  obtain ⟨code, c, σ, name, base, decls, env, hmade⟩ := h
  refine ⟨code, c, σ, name, base, decls, env, hw.code hmade.accepted, hmade.reaches,
    hmade.name_eq, fun frame hframe => Nat.lt_of_lt_of_le (hmade.bounded frame hframe) hw.frames,
    hmade.methods, hmade.based, fun b => (hmade.superclass b).trans ?_⟩
  constructor
  · rintro ⟨frame, outer, rfl, hfixture⟩
    exact ⟨frame, outer, rfl, (hw.fixture (hmade.bounded frame List.mem_cons_self)).trans hfixture⟩
  · rintro ⟨frame, outer, rfl, hfixture⟩
    exact ⟨frame, outer, rfl,
      (hw.fixture (hmade.bounded frame List.mem_cons_self)).symm.trans hfixture⟩

theorem Bindings.Alike.imp {α : Type} {R S : α → α → Prop} {ρ : String → String}
    {b b' : Bindings α} (hRS : ∀ {v v'}, R v v' → S v v') (h : Bindings.Alike R ρ b b') :
    Bindings.Alike S ρ b b' := by
  induction h with
  | nil => exact .nil
  | cons hv _ ih => exact .cons (hRS hv) ih

theorem Class.Alike.mono (hw : w ≤ w') {cls cls' : Class} (h : Class.Alike ℓ w cls cls') :
    Class.Alike ℓ w' cls cls' := by
  induction h with
  | root hmade hmethods => exact .root (hmade.mono hw) (hmethods.imp fun h => h.mono hw)
  | derived hmade _ hmethods ih =>
      exact .derived (hmade.mono hw) ih (hmethods.imp fun h => h.mono hw)

theorem Value.Alike.mono (hw : w ≤ w') {v v' : Value} (h : Value.Alike ℓ w v v') :
    Value.Alike ℓ w' v v' := by
  cases h with
  | nil => exact .nil
  | bool => exact .bool
  | number => exact .number
  | string => exact .string
  | native hid => exact .native (World.getElem?_natives hw hid)
  | closure h => exact .closure (h.mono hw)
  | classObject h => exact .classObject (h.mono hw)
  | object h => exact .object (h.mono hw)

/-! ## Bindings alike -/

theorem option_rel_cases {α β : Type} {R : α → β → Prop} {a : Option α} {b : Option β}
    (h : Option.Rel R a b) :
    (a = none ∧ b = none) ∨ ∃ x y, a = some x ∧ b = some y ∧ R x y := by
  cases h with
  | none => exact .inl ⟨rfl, rfl⟩
  | some h => exact .inr ⟨_, _, rfl, rfl, h⟩

section

variable {α : Type} {R : α → α → Prop} {ρ : String → String} {b b' : Bindings α}

theorem Bindings.Alike.find? (hρ : ∀ {x y}, ρ x = ρ y → x = y) (h : Bindings.Alike R ρ b b')
    (name : String) : Option.Rel R (b.find? name) (b'.find? (ρ name)) := by
  induction h with
  | nil => exact .none
  | @cons v v' _ _ x hv _ ih =>
      by_cases hx : x = name
      · subst hx
        simpa [Bindings.find?] using Option.Rel.some hv
      · have hρx : ρ x ≠ ρ name := fun heq => hx (hρ heq)
        simpa [Bindings.find?, hx, hρx] using ih

theorem Bindings.Alike.set (hρ : ∀ {x y}, ρ x = ρ y → x = y) (h : Bindings.Alike R ρ b b')
    (name : String) {v v' : α} (hv : R v v') :
    Bindings.Alike R ρ (b.set name v) (b'.set (ρ name) v') := by
  induction h with
  | nil => exact .cons hv .nil
  | @cons u u' _ _ x hu hrest ih =>
      by_cases hx : x = name
      · subst hx
        simpa [Bindings.set] using Bindings.Alike.cons hv hrest
      · have hρx : ρ x ≠ ρ name := fun heq => hx (hρ heq)
        simpa [Bindings.set, hx, hρx] using Bindings.Alike.cons hu ih

theorem Bindings.Alike.binds (hρ : ∀ {x y}, ρ x = ρ y → x = y) (h : Bindings.Alike R ρ b b')
    (name : String) : b'.binds (ρ name) = b.binds name := by
  unfold Bindings.binds
  rcases option_rel_cases (h.find? hρ name) with ⟨hb, hb'⟩ | ⟨_, _, hb, hb', _⟩
  · rw [hb, hb']
  · rw [hb, hb']
    rfl

end

/-! ## Tables alike -/

section

variable {α : Type} {R : α → α → Prop} {fields fields' : Array (Bindings α)}
  (hsize : fields'.size = fields.size)
  (hfields : ∀ i, Bindings.Alike R (fun x => x) (fields.getD i []) (fields'.getD i []))

include hsize hfields

theorem Bindings.alike_push (i : InstanceId) :
    Bindings.Alike R (fun x => x) ((fields.push []).getD i []) ((fields'.push []).getD i []) := by
  have hi := hfields i
  simp only [Array.getD_eq_getD_getElem?, Array.getElem?_push, hsize] at hi ⊢
  split
  · exact .nil
  · exact hi

theorem Bindings.alike_modify_set {v v' : α} (hv : R v v') (i : InstanceId) (x : String)
    (j : InstanceId) :
    Bindings.Alike R (fun x => x) ((fields.modify i (·.set x v)).getD j [])
      ((fields'.modify i (·.set x v')).getD j []) := by
  have hj := hfields j
  simp only [Array.getD_eq_getD_getElem?, Array.getElem?_modify] at hj ⊢
  by_cases hij : i = j
  · subst hij
    by_cases hi : i < fields.size
    · have hi' : i < fields'.size := hsize ▸ hi
      simp only [Array.getElem?_eq_getElem hi, Array.getElem?_eq_getElem hi', Option.getD_some,
        if_true, Option.map_some] at hj ⊢
      exact hj.set (fun heq => heq) x hv
    · have hi' : ¬ i < fields'.size := hsize ▸ hi
      simpa [hi, hi'] using hj
  · simpa [hij] using hj

end

theorem natives_push {R : Nat → Native → Native → Prop} {arities : List Nat}
    {natives natives' : Array Native} (hsize : natives.size = arities.length)
    (hsize' : natives'.size = arities.length)
    (hnatives : ∀ {i : NativeId} {arity}, arities[i]? = some arity →
      ∃ n n', natives[i]? = some n ∧ natives'[i]? = some n' ∧ R arity n n')
    {arity : Nat} {n n' : Native} (hn : R arity n n') {i : NativeId} {a : Nat}
    (hi : (arities ++ [arity])[i]? = some a) :
    ∃ k k', (natives.push n)[i]? = some k ∧ (natives'.push n')[i]? = some k' ∧ R a k k' := by
  by_cases hlt : i < arities.length
  · rw [List.getElem?_append_left hlt] at hi
    obtain ⟨k, k', hk, hk', hR⟩ := hnatives hi
    refine ⟨k, k', ?_, ?_, hR⟩
    · rw [Array.getElem?_push, if_neg (hsize ▸ Nat.ne_of_lt hlt), hk]
    · rw [Array.getElem?_push, if_neg (hsize' ▸ Nat.ne_of_lt hlt), hk']
  · obtain ⟨hbound, -⟩ := List.getElem?_eq_some_iff.mp hi
    rw [List.length_append, List.length_singleton] at hbound
    obtain rfl : i = arities.length :=
      Nat.le_antisymm (Nat.le_of_lt_succ hbound) (Nat.le_of_not_lt hlt)
    rw [List.getElem?_append_right (Nat.le_refl _), Nat.sub_self] at hi
    obtain rfl : arity = a := Option.some.inj hi
    refine ⟨n, n', ?_, ?_, hn⟩
    · rw [Array.getElem?_push, if_pos hsize.symm]
    · rw [Array.getElem?_push, if_pos hsize'.symm]

/-! ## Inheritance -/

theorem Class.Inherits.trans {cls mid home : Class} (h : Class.Inherits mid cls)
    (h' : Class.Inherits home mid) : Class.Inherits home cls := by
  induction h with
  | self => exact h'
  | base _ ih => exact .base ih

theorem Class.Inherits.superclass {cls home base : Class} (h : Class.Inherits home cls)
    (hbase : home.superclass = some base) : Class.Inherits base cls := by
  apply h.trans
  cases home with
  | mk number label superclass own =>
      obtain rfl : superclass = some base := hbase
      exact .base .self

theorem Bindings.mem_of_find? {α : Type} {b : Bindings α} {x : String} {v : α}
    (h : b.find? x = some v) : (x, v) ∈ b := by
  induction b with
  | nil => cases h
  | cons entry b ih =>
      obtain ⟨key, value⟩ := entry
      by_cases hkey : key = x
      · subst hkey
        simp only [Bindings.find?, if_true, Option.some.injEq] at h
        simp [h]
      · simp only [Bindings.find?, hkey, if_false] at h
        exact List.mem_cons_of_mem _ (ih h)

theorem Class.home_of_findMethod? {x : String} {method : Closure} : ∀ {cls : Class},
    cls.findMethod? x = some method →
      ∃ home, Class.Inherits home cls ∧ (x, method) ∈ home.methods
  | .mk number label none own, h => ⟨_, .self, Bindings.mem_of_find? h⟩
  | .mk number label (some base) own, h => by
      simp only [Class.findMethod?] at h
      split at h
      · next hown =>
          cases h
          exact ⟨_, .self, Bindings.mem_of_find? hown⟩
      · obtain ⟨home, hinherits, hmem⟩ := home_of_findMethod? h
        exact ⟨home, .base hinherits, hmem⟩

theorem Class.Alike.made {cls cls' home : Class} (h : Class.Alike ℓ w cls cls')
    (hinherits : Class.Inherits home cls) : home.Made w := by
  induction h with
  | root hmade _ =>
      cases hinherits with
      | self => exact hmade
  | derived hmade _ _ ih =>
      cases hinherits with
      | self => exact hmade
      | base hinherits => exact ih hinherits

/-! ## What values are alike in -/

theorem Class.Alike.findMethod? {cls cls' : Class} (h : Class.Alike ℓ w cls cls')
    (name : String) :
    Option.Rel (Closure.MethodAlike ℓ w) (cls.findMethod? name) (cls'.findMethod? name) := by
  induction h with
  | root _ hmethods => exact hmethods.find? (fun heq => heq) name
  | derived _ _ hmethods ih =>
      simp only [Class.findMethod?]
      rcases option_rel_cases (hmethods.find? (fun heq => heq) name) with
        ⟨hown, hown'⟩ | ⟨_, _, hown, hown', hmethod⟩
      · rw [hown, hown']
        exact ih
      · rw [hown, hown']
        exact .some hmethod

theorem Class.Alike.name_eq {cls cls' : Class} (h : Class.Alike ℓ w cls cls') :
    cls'.name = cls.name := by
  cases h <;> rfl

theorem Class.Alike.id_eq {cls cls' : Class} (h : Class.Alike ℓ w cls cls') :
    cls'.id = cls.id := by
  cases h <;> rfl

theorem Closure.MethodAlike.arity_eq {f f' : Closure} (h : Closure.MethodAlike ℓ w f f') :
    f'.decl.arity = f.decl.arity := by
  obtain ⟨_, _, _, _, _, _, _, _, _, _, _, _, halike⟩ := h
  exact halike.arity

theorem Closure.Alike.arity_eq {f f' : Closure} (h : Closure.Alike ℓ w f f') :
    f'.decl.arity = f.decl.arity := by
  obtain ⟨_, _, _, ⟨_, _, _, _, _, _, halike⟩, _, _⟩ := h
  exact halike.arity

theorem Closure.Alike.lexeme_eq {f f' : Closure} (h : Closure.Alike ℓ w f f') :
    f'.decl.name.lexeme = f.decl.name.lexeme := by
  obtain ⟨_, _, _, ⟨_, _, _, _, _, _, halike⟩, _, _⟩ := h
  exact halike.name.2

theorem Class.Alike.arity_eq {cls cls' : Class} (h : Class.Alike ℓ w cls cls') :
    cls'.arity = cls.arity := by
  unfold Class.arity Class.initializer?
  rcases option_rel_cases (h.findMethod? initializerName) with
    ⟨hown, hown'⟩ | ⟨_, _, hown, hown', hmethod⟩
  · rw [hown, hown']
  · rw [hown, hown']
    exact hmethod.arity_eq

section

variable {v v' u u' : Value}

theorem Value.alike_ofLiteral (literal : Literal) :
    Value.Alike ℓ w (.ofLiteral literal) (.ofLiteral literal) := by
  cases literal with
  | nil => exact .nil
  | bool b => exact .bool
  | number x => exact .number
  | string s => exact .string

theorem Value.Alike.isTruthy_eq (h : Value.Alike ℓ w v v') : v'.isTruthy = v.isTruthy := by
  cases h <;> rfl

theorem Value.Alike.hostSort_eq (h : Value.Alike ℓ w v v') : v'.hostSort = v.hostSort := by
  cases h <;> rfl

theorem Value.Alike.display_eq (h : Value.Alike ℓ w v v') : v'.display = v.display := by
  cases h with
  | closure h => simp only [Value.display, h.lexeme_eq]
  | classObject h => exact h.name_eq
  | object h => simp only [Value.display, h.name_eq]
  | _ => rfl

theorem Value.Alike.arity?_eq (h : Value.Alike ℓ w v v') : v'.arity? = v.arity? := by
  cases h with
  | closure h => simp only [Value.arity?, h.arity_eq]
  | classObject h => simp only [Value.arity?, h.arity_eq]
  | _ => rfl

theorem Value.Alike.equals_eq (h : Value.Alike ℓ w v v') (hu : Value.Alike ℓ w u u') :
    v'.equals u' = v.equals u := by
  cases h with
  | closure h =>
      cases hu with
      | closure hu => simp only [Value.equals, h.id_eq, hu.id_eq]
      | _ => rfl
  | classObject h =>
      cases hu with
      | classObject hu => simp only [Value.equals, h.id_eq, hu.id_eq]
      | _ => rfl
  | _ => cases hu <;> rfl

end

end Lox
