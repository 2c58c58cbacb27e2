import Lox.Proofs.Simulation.State

/-!
# Steps on frames

Each of the steps that work on frames keeps sessions alike.  Entering an environment adds a frame to
the world, and binding a name adds to what its frame is known to bind.  Fixtures are made with what
they bind, and no later step changes them.
-/

namespace Lox

/-! ## Frames -/

namespace Frames

variable {α : Type}

@[simp] theorem bindings_push (fs : Frames α) (f : FrameId) : fs.push.bindings f = fs.bindings f := by
  simp only [bindings, push, Array.getD_eq_getD_getElem?, Array.getElem?_push]
  split
  · next h => simp [h]
  · rfl

theorem bindings_update (fs : Frames α) (f g : FrameId) (change : Bindings α → Bindings α) :
    (fs.update f change).bindings g =
      if f = g ∧ f < fs.frames.size then change (fs.bindings f) else fs.bindings g := by
  simp only [bindings, update, Array.getD_eq_getD_getElem?, Array.getElem?_modify]
  by_cases hfg : f = g
  · subst hfg
    by_cases hf : f < fs.frames.size
    · simp [hf]
    · simp [hf]
  · simp [hfg]

@[simp] theorem size_update (fs : Frames α) (f : FrameId) (change : Bindings α → Bindings α) :
    (fs.update f change).frames.size = fs.frames.size := by
  simp [update]

@[simp] theorem size_push (fs : Frames α) : fs.push.frames.size = fs.frames.size + 1 := by
  simp [push]

theorem find?_globals (fs : Frames α) (name : String) :
    fs.find? Session.globals name = (fs.bindings Session.globalFrame).find? name := by
  simp only [Session.globals, find?]
  cases (fs.bindings Session.globalFrame).find? name <;> rfl

theorem frameAt_eq {env : Environment} {k : Nat} {f : FrameId} {outer : Environment}
    (h : env.drop k = f :: outer) : frameAt env (k : Int) = .ok f := by
  have hk : k ≤ env.length := by
    apply Nat.le_of_lt
    apply Nat.lt_of_not_le
    intro hle
    rw [List.drop_eq_nil_of_le hle] at h
    cases h
  simp [frameAt, ancestor?, hk, h]

end Frames

theorem Bindings.set_set {α : Type} (b : Bindings α) (x : String) (v u : α) :
    (b.set x v).set x u = b.set x u := by
  induction b with
  | nil => simp [Bindings.set]
  | cons entry b ih =>
      obtain ⟨key, old⟩ := entry
      by_cases hkey : key = x
      · simp [Bindings.set, hkey]
      · simp [Bindings.set, hkey, ih]

/-! ## Growing worlds -/

namespace World

def enter (w : World) (ρ : String → String) : World :=
  { w with
    frames := w.frames + 1
    rename := fun f => if f = w.frames then ρ else w.rename f }

def mount (w : World) (fixture : Fixture) : World :=
  { w with
    frames := w.frames + 1
    rename := fun f => if f = w.frames then fun x => x else w.rename f
    declared := fun f x => (f = w.frames ∧ x = fixture.name) ∨ w.declared f x
    fixture := fun f => if f = w.frames then some fixture else w.fixture f }

def bind (w : World) (f : FrameId) (x : String) : World :=
  { w with declared := fun g y => (g = f ∧ y = x) ∨ w.declared g y }

def hire (w : World) (arity : Nat) : World :=
  { w with natives := w.natives ++ [arity] }

def accept (w : World) (code : Code) : World :=
  { w with code := fun c => c = code ∨ w.code c }

variable {w : World}

theorem le_enter (ρ : String → String) : w ≤ w.enter ρ where
  frames := Nat.le_succ _
  rename hf := if_neg (Nat.ne_of_lt hf)
  declared h := h
  fixture _ := rfl
  natives := List.prefix_refl _
  code h := h

theorem le_mount (fixture : Fixture) : w ≤ w.mount fixture where
  frames := Nat.le_succ _
  rename hf := if_neg (Nat.ne_of_lt hf)
  declared h := .inr h
  fixture hf := if_neg (Nat.ne_of_lt hf)
  natives := List.prefix_refl _
  code h := h

theorem le_bind (f : FrameId) (x : String) : w ≤ w.bind f x where
  frames := Nat.le_refl _
  rename _ := rfl
  declared h := .inr h
  fixture _ := rfl
  natives := List.prefix_refl _
  code h := h

theorem le_hire (arity : Nat) : w ≤ w.hire arity where
  frames := Nat.le_refl _
  rename _ := rfl
  declared h := h
  fixture _ := rfl
  natives := List.prefix_append _ _
  code h := h

theorem le_accept (code : Code) : w ≤ w.accept code where
  frames := Nat.le_refl _
  rename _ := rfl
  declared h := h
  fixture _ := rfl
  natives := List.prefix_refl _
  code h := .inr h

end World

section

variable {ℓ : Likeness} {lockstep : Prop} {w w' : World}

theorem Frames.Alike.mono (hw : w ≤ w') {fs fs' : Frames Value} (h : Frames.Alike ℓ w fs fs')
    (hframes : w'.frames = w.frames) (hrename : w'.rename = w.rename)
    (hfixture : w'.fixture = w.fixture)
    (hdeclared : ∀ {f x}, w'.declared f x → (fs.bindings f).binds x = true) :
    Frames.Alike ℓ w' fs fs' where
  size := hframes ▸ h.size
  size' := hframes ▸ h.size'
  bindings f := by
    rw [hrename]
    exact (h.bindings f).imp fun hv => hv.mono hw
  declared := hdeclared
  renames f := hrename ▸ h.renames f
  globals := hframes ▸ h.globals
  rename_globals := hrename ▸ h.rename_globals
  fixed hf := h.fixed (hfixture ▸ hf)
  fixed_lt hf := hframes ▸ h.fixed_lt (hfixture ▸ hf)
  free_globals := hfixture ▸ h.free_globals
  free hf := h.free (hfixture ▸ hf)

theorem Frames.bindings_size {α : Type} (fs : Frames α) : fs.bindings fs.frames.size = [] := by
  simp [Frames.bindings]

theorem Frames.Alike.push {fs fs' : Frames Value} (h : Frames.Alike ℓ w fs fs')
    {ρ : String → String} (hρ : ℓ.renames ρ) :
    Frames.Alike ℓ (w.enter ρ) fs.push fs'.push where
  size := by rw [Frames.size_push, h.size]; rfl
  size' := by rw [Frames.size_push, h.size']; rfl
  bindings f := by
    rw [Frames.bindings_push, Frames.bindings_push]
    by_cases hf : f = w.frames
    · have hnone : fs.bindings f = [] := by
        rw [hf, ← h.size, Frames.bindings_size]
      have hnone' : fs'.bindings f = [] := by
        rw [hf, ← h.size', Frames.bindings_size]
      rw [hnone, hnone']
      exact .nil
    · have hrename : (w.enter ρ).rename f = w.rename f := if_neg hf
      rw [hrename]
      exact (h.bindings f).imp fun hv => hv.mono (World.le_enter ρ)
  declared hx := by
    rw [Frames.bindings_push]
    exact h.declared hx
  renames f := by
    by_cases hf : f = w.frames
    · simpa [World.enter, hf] using hρ
    · simpa [World.enter, hf] using h.renames f
  globals := Nat.succ_pos _
  rename_globals := ((World.le_enter ρ).rename h.globals).trans h.rename_globals
  fixed hf := by
    rw [Frames.bindings_push]
    exact h.fixed hf
  fixed_lt hf := Nat.lt_succ_of_lt (h.fixed_lt hf)
  free_globals := h.free_globals
  free hf hlocal := by
    rw [Frames.bindings_push]
    exact h.free hf hlocal

theorem Frames.Alike.update {fs fs' : Frames Value} (h : Frames.Alike ℓ w fs fs') {f : FrameId}
    (hf : f < w.frames) (hfree : w.fixture f = none) {x : String}
    (hx : f ≠ Session.globalFrame → x ≠ "this") {v v' : Value}
    (hv : Value.Alike ℓ (w.bind f x) v v') :
    Frames.Alike ℓ (w.bind f x) (fs.update f (·.set x v))
      (fs'.update f (·.set (w.rename f x) v')) where
  size := by rw [Frames.size_update, h.size]; rfl
  size' := by rw [Frames.size_update, h.size']; rfl
  bindings g := by
    rw [Frames.bindings_update, Frames.bindings_update, h.size, h.size']
    have hbindings : ∀ g, Bindings.Alike (Value.Alike ℓ (w.bind f x)) (w.rename g)
        (fs.bindings g) (fs'.bindings g) :=
      fun g => (h.bindings g).imp fun hv => hv.mono (World.le_bind f x)
    split
    · next hfg =>
        rw [← hfg.1]
        exact (hbindings f).set (ℓ.renames_injective (h.renames f)) x hv
    · exact hbindings g
  declared {g y} hy := by
    rw [Frames.bindings_update, h.size]
    rcases hy with ⟨rfl, rfl⟩ | hy
    · simp [hf, Bindings.binds]
    · split
      · next hfg =>
          rw [Bindings.binds_set, hfg.1, h.declared hy, Bool.or_true]
      · exact h.declared hy
  renames := h.renames
  globals := h.globals
  rename_globals := h.rename_globals
  fixed {g fixture} hg := by
    rw [Frames.bindings_update, if_neg]
    · exact h.fixed hg
    · rintro ⟨rfl, -⟩
      cases hfree.symm.trans hg
  fixed_lt := h.fixed_lt
  free_globals := h.free_globals
  free {g} hg hlocal := by
    rw [Frames.bindings_update]
    split
    · next hfg =>
        obtain rfl := hfg.1
        rw [Bindings.binds_set, h.free hg hlocal, Bool.or_false]
        exact beq_eq_false_iff_ne.mpr (hx hlocal)
    · exact h.free hg hlocal

section

variable {α : Type} {fs : Frames α} {f g : FrameId}

theorem Frames.bindings_mount (hsize : fs.frames.size = f) (x : String) (v : α) :
    (fs.push.update f (·.set x v)).bindings f = [(x, v)] := by
  subst hsize
  have hnew : fs.frames.size < fs.push.frames.size := by
    rw [Frames.size_push]
    exact Nat.lt_succ_self _
  rw [Frames.bindings_update, if_pos ⟨rfl, hnew⟩, Frames.bindings_push, Frames.bindings_size]
  rfl

theorem Frames.bindings_mount_of_ne (hg : g ≠ f) (x : String) (v : α) :
    (fs.push.update f (·.set x v)).bindings g = fs.bindings g := by
  rw [Frames.bindings_update, if_neg fun heq => hg heq.1.symm, Frames.bindings_push]

end

/-- What a fixture binds is bound as soon as there is its frame. -/
theorem Frames.Alike.mount {fs fs' : Frames Value} (h : Frames.Alike ℓ w fs fs')
    {fixture : Fixture} {v' : Value} (hv : Value.Alike ℓ w fixture.value v') :
    Frames.Alike ℓ (w.mount fixture)
      (fs.push.update w.frames (·.set fixture.name fixture.value))
      (fs'.push.update w.frames (·.set fixture.name v')) := by
  constructor
  case size => rw [Frames.size_update, Frames.size_push, h.size]; rfl
  case size' => rw [Frames.size_update, Frames.size_push, h.size']; rfl
  case bindings =>
    intro g
    by_cases hg : g = w.frames
    · subst hg
      rw [Frames.bindings_mount h.size, Frames.bindings_mount h.size']
      have hrename : (w.mount fixture).rename w.frames = fun x => x := if_pos rfl
      rw [hrename]
      exact .cons (hv.mono (World.le_mount fixture)) .nil
    · have hrename : (w.mount fixture).rename g = w.rename g := if_neg hg
      rw [Frames.bindings_mount_of_ne hg, Frames.bindings_mount_of_ne hg, hrename]
      exact (h.bindings g).imp fun hu => hu.mono (World.le_mount fixture)
  case declared =>
    rintro g y (⟨rfl, rfl⟩ | hy)
    · rw [Frames.bindings_mount h.size]
      simp [Bindings.binds, Bindings.find?]
    · by_cases hg : g = w.frames
      · subst hg
        have hnone := h.declared hy
        rw [← h.size, Frames.bindings_size] at hnone
        cases hnone
      · rw [Frames.bindings_mount_of_ne hg]
        exact h.declared hy
  case renames =>
    intro g
    by_cases hg : g = w.frames
    · simpa [World.mount, hg] using ℓ.renames_id
    · simpa [World.mount, hg] using h.renames g
  case globals => exact Nat.succ_pos _
  case rename_globals =>
    exact ((World.le_mount fixture).rename h.globals).trans h.rename_globals
  case fixed =>
    intro g other hg
    simp only [World.mount] at hg
    split at hg
    · next heq =>
        obtain rfl := Option.some.inj hg
        rw [heq, Frames.bindings_mount h.size]
        rfl
    · next hne =>
        rw [Frames.bindings_mount_of_ne hne]
        exact h.fixed hg
  case fixed_lt =>
    intro g other hg
    simp only [World.mount] at hg ⊢
    split at hg
    · next heq => exact heq ▸ Nat.lt_succ_self _
    · exact Nat.lt_succ_of_lt (h.fixed_lt hg)
  case free_globals =>
    exact ((World.le_mount fixture).fixture h.globals).trans h.free_globals
  case free =>
    intro g hg hlocal
    simp only [World.mount] at hg
    split at hg
    · cases hg
    · next hne =>
        rw [Frames.bindings_mount_of_ne hne]
        exact h.free hg hlocal

theorem Session.Alike.withFrames {s s' : Session} (h : Session.Alike ℓ w s s') (hw : w ≤ w')
    (hpace : w'.pace = w.pace) (hnatives : w'.natives = w.natives) (hcode : w'.code = w.code)
    {fs fs' : Frames Value} (hframes : Frames.Alike ℓ w' fs fs') :
    Session.Alike ℓ w' { s with frames := fs } { s' with frames := fs' } :=
  { h with
    frames := hframes
    fields := h.fields.mono hw
    natives := h.natives.mono hw hnatives
    memory := formsAlike_mono hw h.memory
    genuine := fun hnew => h.genuine (hcode ▸ hnew)
    recorded := h.recorded.same hcode
    recorded' := h.recorded'.same hcode
    nextNode := hpace ▸ h.nextNode
    number := hpace ▸ h.number
    output := hpace ▸ h.output
    staticError := hpace ▸ h.staticError
    runtimeError := hpace ▸ h.runtimeError }

/-! ## Environments -/

def Scopes.put (x : String) : Scopes → Scopes
  | [] => []
  | scope :: σ => scope.set x true :: σ

theorem Scopes.settle_eq_put (σ : Scopes) (name : Token) : σ.settle name = σ.put name.lexeme := by
  cases σ with
  | nil => rfl
  | cons scope σ => simp [settle, declare, define, put, Bindings.set_set]

/-- The innermost scope is none that a class makes. -/
def Scopes.Open (σ : Scopes) : Prop :=
  ∀ scope ∈ σ.head?, Scope.Ordinary scope

theorem Opened.open {c : ClassContext} {σ : Scopes} (h : Opened c σ) : σ.Open := by
  cases h with
  | globals => exact nofun
  | scope hscope _ =>
      rintro _ ⟨⟩
      exact hscope

theorem StandsFor.eq_none_of_ordinary {env : Environment} {fixture : Option Fixture}
    {scope : Scope} (h : StandsFor env fixture scope) (hscope : scope.Ordinary) :
    fixture = none := by
  cases h with
  | plain _ => rfl
  | this _ _ _ => cases hscope.1
  | super => cases hscope.2

variable {env : Environment} {σ : Scopes} {ρs : List (String → String)}

theorem Covers.innermost (h : Covers w env σ ρs) (hopen : σ.Open) {fs fs' : Frames Value}
    (hframes : Frames.Alike ℓ w fs fs') :
    ∃ f outer, env = f :: outer ∧ f < w.frames ∧ w.rename f = renameHere ρs ∧
      w.fixture f = none ∧ (f ≠ Session.globalFrame → σ ≠ []) := by
  cases h with
  | globals =>
      exact ⟨_, _, rfl, hframes.globals, hframes.rename_globals, hframes.free_globals, absurd rfl⟩
  | inner hf _ hrename _ hstands _ =>
      exact ⟨_, _, rfl, hf, hrename, hstands.eq_none_of_ordinary (hopen _ rfl),
        fun _ => List.cons_ne_nil _ _⟩

theorem Covers.put (h : Covers w env σ ρs) (hopen : σ.Open) {f : FrameId} {outer : Environment}
    (henv : env = f :: outer) {x : String} (hx : σ ≠ [] → x ≠ "this" ∧ x ≠ "super") :
    Covers (w.bind f x) env (σ.put x) ρs := by
  cases h with
  | globals => exact .globals
  | @inner f _ ρ scope σ ρs hf hnewest hrename hdeclared hstands houter =>
      obtain ⟨rfl, rfl⟩ := List.cons.inj henv
      obtain ⟨hthis, hsuper⟩ := hx (List.cons_ne_nil _ _)
      have hscope : Scope.Ordinary scope := hopen scope rfl
      have hfree : (w.bind f x).fixture f = none := hstands.eq_none_of_ordinary hscope
      refine .inner hf hnewest hrename (fun {y} hy => ?_) ?_ (houter.mono (World.le_bind _ x))
      · rw [Bindings.find?_set] at hy
        split at hy
        · next hxy => exact .inl ⟨rfl, hxy.symm⟩
        · exact .inr (hdeclared hy)
      · rw [hfree]
        apply StandsFor.plain
        constructor
        · rw [Bindings.find?_set_of_ne hthis]
          exact hscope.1
        · rw [Bindings.find?_set_of_ne hsuper]
          exact hscope.2

theorem Covers.declare (h : Covers w env σ ρs) (hopen : σ.Open) {name : Token}
    (hname : name.Plain) : Covers w env (σ.declare name) ρs := by
  cases h with
  | globals => exact .globals
  | @inner f _ ρ scope σ ρs hf hnewest hrename hdeclared hstands houter =>
      have hscope : Scope.Ordinary scope := hopen scope rfl
      refine .inner hf hnewest hrename (fun {y} hy => ?_) ?_ houter
      · rw [Bindings.find?_set] at hy
        split at hy
        · cases hy
        · exact hdeclared hy
      · rw [hstands.eq_none_of_ordinary hscope]
        exact .plain (hscope.set hname false)

def BindsHere (w : World) (env : Environment) (x : String) : Prop :=
  ∃ f outer, env = f :: outer ∧ w.declared f x

theorem BindsHere.mono (hw : w ≤ w') {x : String} (h : BindsHere w env x) :
    BindsHere w' env x := by
  obtain ⟨f, outer, henv, hx⟩ := h
  exact ⟨f, outer, henv, hw.declared hx⟩

/-- What is known of a new frame in an environment. -/
structure Entered (w : World) (env inner : Environment) (σ : Scopes) (ρ : String → String)
    (ρs : List (String → String)) : Prop where
  covers : Covers w inner ([] :: σ) (ρ :: ρs)
  bounded : ∀ f ∈ inner, f < w.frames
  held : ∀ {id}, Held w id env → Held w id inner

theorem Sited.block {code : Code} {c : Context} {ss : List Stmt} {inner : Environment}
    {ρ : String → String} (h : Sited w code c σ ρs env (.stmt (.block ss)))
    (hentered : Entered w env inner σ ρ ρs) :
    Sited w code c ([] :: σ) (ρ :: ρs) inner (.body ss) :=
  ⟨h.accepted, h.reaches.block, hentered.covers, hentered.bounded,
    fun id hid => hentered.held (h.held id hid)⟩

theorem simulates_enter (hcovers : Covers w env σ ρs) {ρ : String → String}
    (hρ : ℓ.renames ρ) :
    Simulates ℓ lockstep (fun w' e e' => e' = e ∧ Entered w' env e σ ρ ρs) w
      (Eval.enter env) (Eval.enter env) := by
  apply simulates_modifyGet
  intro s s' hs
  have hlt := hcovers.lt_frames hs.frames.globals
  have hfree : (w.enter ρ).fixture w.frames = none := by
    cases hfixture : w.fixture w.frames with
    | none => exact hfixture
    | some fixture => exact absurd (hs.frames.fixed_lt hfixture) (Nat.lt_irrefl _)
  refine ⟨w.enter ρ, ⟨World.le_enter ρ, .inl rfl⟩, ?_, ?_, ?_⟩
  · exact hs.withFrames (World.le_enter ρ) rfl rfl rfl (hs.frames.push hρ)
  · simp only [Frames.inner, hs.frames.size, hs.frames.size']
  · simp only [Frames.inner, hs.frames.size]
    constructor
    · refine .inner (Nat.lt_succ_self _) hlt (if_pos rfl) nofun ?_
        (hcovers.mono (World.le_enter ρ))
      rw [hfree]
      exact .plain ⟨rfl, rfl⟩
    · intro f hf
      rcases List.mem_cons.mp hf with rfl | hf
      · exact Nat.lt_succ_self _
      · exact Nat.lt_succ_of_lt (hlt f hf)
    · intro id hid
      simp only [Held, hfree]
      exact hid

theorem simulates_updateFrame {f : FrameId} (hf : f < w.frames) (hfree : w.fixture f = none)
    {x : String} (hx : f ≠ Session.globalFrame → x ≠ "this") {v v' : Value} (hv : Value.Alike ℓ (w.bind f x) v v') :
    Simulates ℓ lockstep (fun w' _ _ => w' = w.bind f x) w (Eval.updateFrame f x v)
      (Eval.updateFrame f (w.rename f x) v') :=
  simulates_modify fun _ _ hs => ⟨w.bind f x, ⟨World.le_bind f x, .inl rfl⟩,
    hs.withFrames (World.le_bind f x) rfl rfl rfl (hs.frames.update hf hfree hx hv), rfl⟩

/-- Binds a name in the innermost frame.  The value may already make use of the name. -/
theorem simulates_define (hcovers : Covers w env σ ρs) (hopen : σ.Open) {x : String}
    (hx : σ ≠ [] → x ≠ "this" ∧ x ≠ "super") {v v' : Value}
    (hv : ∀ w', w ≤ w' → Covers w' env (σ.put x) ρs → Value.Alike ℓ w' v v') :
    Simulates ℓ lockstep (fun w' _ _ => Covers w' env (σ.put x) ρs ∧ BindsHere w' env x) w
      (Eval.define env x v) (Eval.define env (renameHere ρs x) v') := by
  refine .of_alike fun s s' hs => ?_
  obtain ⟨f, outer, henv, hf, hrename, hfree, hlocal⟩ := hcovers.innermost hopen hs.frames
  subst henv
  rw [← hrename]
  change Simulates ℓ lockstep _ w (Eval.updateFrame f x v) (Eval.updateFrame f (w.rename f x) v')
  have hput := hcovers.put hopen rfl hx
  refine (simulates_updateFrame hf hfree (fun h => (hx (hlocal h)).1)
    (hv _ (World.le_bind f x) hput)).imp ?_
  rintro _ _ _ - rfl
  exact ⟨hput, f, outer, rfl, .inl ⟨rfl, rfl⟩⟩

/-! ## Fixtures -/

/-- Makes a new frame inside an environment that binds one name. -/
def Eval.mount (env : Environment) (name : String) (value : Value) : Eval Environment := do
  let inner ← enter env
  define inner name value
  return inner

theorem Eval.mount_apply (env : Environment) (name : String) (value : Value) (s : Session) :
    Eval.mount env name value s = .ok (s.frames.frames.size :: env)
      { s with frames := s.frames.push.update s.frames.frames.size (·.set name value) } :=
  rfl

/-- The frame of a fixture is the innermost one. -/
def Mounted (w : World) (fixture : Fixture) (env inner : Environment) : Prop :=
  ∃ f, inner = f :: env ∧ (∀ g ∈ env, g < f) ∧ f < w.frames ∧ w.fixture f = some fixture ∧
    w.declared f fixture.name ∧ w.rename f = fun x => x

theorem Mounted.mono (hw : w ≤ w') {fixture : Fixture} {inner : Environment}
    (h : Mounted w fixture env inner) : Mounted w' fixture env inner := by
  obtain ⟨f, henv, hnewest, hf, hfixture, hdeclared, hrename⟩ := h
  exact ⟨f, henv, hnewest, Nat.lt_of_lt_of_le hf hw.frames, (hw.fixture hf).trans hfixture,
    hw.declared hdeclared, (hw.rename hf).trans hrename⟩

theorem simulates_mount (fixture : Fixture) {v' : Value} (hv : Value.Alike ℓ w fixture.value v')
    (henv : ∀ f ∈ env, f < w.frames) :
    Simulates ℓ lockstep (fun w' e e' => e' = e ∧ Mounted w' fixture env e) w
      (Eval.mount env fixture.name fixture.value) (Eval.mount env fixture.name v') := by
  intro s s' hs
  rw [Eval.mount_apply, Eval.mount_apply, hs.frames.size, hs.frames.size']
  refine .ok ⟨World.le_mount fixture, .inl rfl⟩ ?_ ⟨rfl, w.frames, rfl, henv, ?_⟩
  · exact hs.withFrames (World.le_mount fixture) rfl rfl rfl (hs.frames.mount hv)
  · exact ⟨Nat.lt_succ_self _, if_pos rfl, .inl ⟨rfl, rfl⟩, if_pos rfl⟩

/-! ## Variables -/

theorem Frames.Alike.find? {fs fs' : Frames Value} (h : Frames.Alike ℓ w fs fs') (f : FrameId)
    (x : String) :
    Option.Rel (Value.Alike ℓ w) ((fs.bindings f).find? x)
      ((fs'.bindings f).find? (w.rename f x)) :=
  (h.bindings f).find? (ℓ.renames_injective (h.renames f)) x

theorem Eval.readAt_eq_ok {s : Session} {k : Nat} {f : FrameId} {outer : Environment}
    (hdrop : env.drop k = f :: outer) {x : String} {v : Value}
    (hv : (s.frames.bindings f).find? x = some v) : Eval.readAt env k x s = .ok v s := by
  simp only [Eval.readAt, eval_get_bind_apply, Frames.getAt, Frames.frameAt_eq hdrop, hv]
  rfl

theorem simulates_readAt (hcovers : Covers w env σ ρs) {k : Nat} {x : String}
    (hx : σ.Holds k x) :
    Simulates ℓ lockstep (Value.Alike ℓ) w
      (Eval.readAt env k x) (Eval.readAt env k ((ρs[k]?.getD fun x => x) x)) := by
  obtain ⟨scope, hscope, htrue⟩ := hx
  obtain ⟨f, outer, hframe⟩ := hcovers.frame hscope
  intro s s' hs
  obtain ⟨v, hv⟩ := Bindings.binds_iff.mp (hs.frames.declared (hframe.declared htrue))
  rcases option_rel_cases (hs.frames.find? f x) with ⟨hnone, -⟩ | ⟨u, u', hu, hu', halike⟩
  · rw [hnone] at hv
    cases hv
  · rw [hframe.rename, Option.getD_some, Eval.readAt_eq_ok hframe.drop hu,
      Eval.readAt_eq_ok hframe.drop hu']
    exact .ok (World.later_refl w) hs halike

theorem Frames.Alike.find?_fixture {fs fs' : Frames Value} (h : Frames.Alike ℓ w fs fs')
    {f : FrameId} {fixture : Fixture} (hfixture : w.fixture f = some fixture) :
    (fs.bindings f).find? fixture.name = some fixture.value := by
  rw [h.fixed hfixture]
  simp [Fixture.bindings, Bindings.find?]

theorem Likeness.renames_fixture {ρ : String → String} (h : ℓ.renames ρ) (fixture : Fixture) :
    ρ fixture.name = fixture.name := by
  cases fixture with
  | this _ _ _ _ => exact ℓ.renames_this h
  | super _ => exact ℓ.renames_super h

theorem simulates_readAt_fixture {k : Nat} {f : FrameId} {outer : Environment}
    (hdrop : env.drop k = f :: outer) {fixture : Fixture}
    (hfixture : w.fixture f = some fixture) :
    Simulates ℓ lockstep (fun w' v v' => v = fixture.value ∧ Value.Alike ℓ w' v v') w
      (Eval.readAt env k fixture.name) (Eval.readAt env k fixture.name) := by
  intro s s' hs
  have hfind := hs.frames.find?_fixture hfixture
  have hrel := hs.frames.find? f fixture.name
  rw [ℓ.renames_fixture (hs.frames.renames f), hfind] at hrel
  cases hfind' : (s'.frames.bindings f).find? fixture.name with
  | none =>
      rw [hfind'] at hrel
      cases hrel
  | some u' =>
      rw [hfind'] at hrel
      cases hrel with
      | some halike =>
          rw [Eval.readAt_eq_ok hdrop hfind, Eval.readAt_eq_ok hdrop hfind']
          exact .ok (World.later_refl w) hs ⟨rfl, halike⟩

theorem simulates_writeAt (hcovers : Covers w env σ ρs) {k : Nat} {scope : Scope}
    (hscope : σ[k]? = some scope) {x : String} {b : Bool} (hx : scope.find? x = some b)
    (hthis : x ≠ "this") (hsuper : x ≠ "super") {v v' : Value} (hv : Value.Alike ℓ w v v') :
    Simulates ℓ lockstep (fun _ _ _ => True) w (Eval.writeAt env k x v)
      (Eval.writeAt env k ((ρs[k]?.getD fun x => x) x) v') := by
  obtain ⟨f, outer, hframe⟩ := hcovers.frame hscope
  have hwrite : ∀ y u, Eval.writeAt env k y u = Eval.updateFrame f y u := by
    intro y u
    unfold Eval.writeAt
    rw [Frames.frameAt_eq hframe.drop]
    rfl
  rw [hwrite, hwrite, hframe.rename]
  have hfree := hframe.standsFor.eq_none hx hthis hsuper
  exact (simulates_updateFrame hframe.lt hfree (fun _ => hthis) (hv.mono (World.le_bind f x))).imp
    fun _ _ => trivial

theorem simulates_walk {own : Bool} {name name' : Token} (hname : ℓ.word own name name') :
    Simulates ℓ lockstep (Value.Alike ℓ) w (Eval.walk Session.globals name)
      (Eval.walk Session.globals name') := by
  intro s s' hs
  have hfound := hs.frames.find? Session.globalFrame name.lexeme
  rw [hs.frames.rename_globals] at hfound
  simp only [Eval.walk, eval_get_bind_apply, Session.globals, Frames.find?, hname.2]
  rcases option_rel_cases hfound with ⟨hv, hv'⟩ | ⟨v, v', hv, hv', halike⟩
  · rw [hv, hv']
    exact (simulates_fault hname.1 (by trivial)) s s' hs
  · rw [hv, hv']
    exact Simulates.pure halike s s' hs

theorem simulates_walkAssign {own : Bool} {name name' : Token} (hname : ℓ.word own name name')
    {v v' : Value} (hv : Value.Alike ℓ w v v') :
    Simulates ℓ lockstep (fun _ _ _ => True) w (Eval.walkAssign Session.globals name v)
      (Eval.walkAssign Session.globals name' v') := by
  intro s s' hs
  have hbinds := (hs.frames.bindings Session.globalFrame).binds
    (ℓ.renames_injective (hs.frames.renames _)) name.lexeme
  have hupdate : Simulates ℓ lockstep _ w
      (Eval.updateFrame Session.globalFrame name.lexeme v)
      (Eval.updateFrame Session.globalFrame (w.rename Session.globalFrame name.lexeme) v') :=
    simulates_updateFrame hs.frames.globals hs.frames.free_globals (absurd rfl)
      (hv.mono (World.le_bind _ _))
  rw [hs.frames.rename_globals] at hbinds hupdate
  simp only [Eval.walkAssign, eval_get_bind_apply, Session.globals, Frames.home?, hname.2, hbinds]
  split
  · exact (hupdate.imp fun _ _ => trivial) s s' hs
  · exact (simulates_fault hname.1 (by trivial)) s s' hs

theorem simulates_walkAssign_here (hcovers : Covers w env σ ρs) (hopen : σ.Open)
    {name name' : Token} (hname : name'.lexeme = renameHere ρs name.lexeme) (hplain : name.Plain)
    (hhere : BindsHere w env name.lexeme) {v v' : Value} (hv : Value.Alike ℓ w v v') :
    Simulates ℓ lockstep (fun _ _ _ => True) w (Eval.walkAssign env name v)
      (Eval.walkAssign env name' v') := by
  intro s s' hs
  obtain ⟨f, outer, henv, hf, hrename, hfree, -⟩ := hcovers.innermost hopen hs.frames
  obtain ⟨g, outer', henv', hdeclared⟩ := hhere
  subst henv
  obtain ⟨rfl, rfl⟩ := List.cons.inj henv'
  have hupdate : Simulates ℓ lockstep _ w (Eval.updateFrame f name.lexeme v)
      (Eval.updateFrame f (w.rename f name.lexeme) v') :=
    simulates_updateFrame hf hfree (fun _ => hplain.1) (hv.mono (World.le_bind _ _))
  have hbinds := hs.frames.declared hdeclared
  have hbinds' := ((hs.frames.bindings f).binds
    (ℓ.renames_injective (hs.frames.renames f)) name.lexeme).trans hbinds
  rw [hrename, ← hname] at hbinds' hupdate
  simp only [Eval.walkAssign, eval_get_bind_apply, Frames.home?, hbinds, hbinds', if_true]
  exact (hupdate.imp fun _ _ => trivial) s s' hs

/-! ## References -/

section

variable {code : Code} {c : Context} {part : Part} {id : NodeId}
  {name name' : Token}

theorem simulates_lookUp (hsited : Sited w code c σ ρs env part) (hid : id ∈ part.ids)
    (htable : code.table id = σ.hops? name.lexeme)
    (hholds : ∀ k, σ.hops? name.lexeme = some k → σ.Holds k name.lexeme)
    (htoken : ℓ.token code.own name name')
    (hname : name'.lexeme = renameAt code ρs id name.lexeme) :
    Simulates ℓ lockstep (Value.Alike ℓ) w (Eval.lookUp env id name)
      (Eval.lookUp env (code.renumber id) name') := by
  intro s s' hs
  have hmem := hsited.id_mem hid
  simp only [Eval.lookUp, eval_get_bind_apply, hs.recorded.table hsited.accepted hmem,
    hs.recorded'.table hsited.accepted hmem]
  unfold renameAt at hname
  cases hhops : code.table id with
  | none =>
      rw [hhops] at hname
      exact simulates_walk ⟨htoken, hname⟩ s s' hs
  | some k =>
      rw [hhops] at hname htable
      rw [hname]
      exact simulates_readAt hsited.covers (hholds k htable.symm) s s' hs

theorem simulates_assign (hsited : Sited w code c σ ρs env part) (hid : id ∈ part.ids)
    (htable : code.table id = σ.hops? name.lexeme) (htoken : ℓ.token code.own name name')
    (hname : name'.lexeme = renameAt code ρs id name.lexeme) (hplain : name.Plain)
    {v v' : Value} (hv : Value.Alike ℓ w v v') :
    Simulates ℓ lockstep (fun _ _ _ => True) w (Eval.assign env id name v)
      (Eval.assign env (code.renumber id) name' v') := by
  intro s s' hs
  have hmem := hsited.id_mem hid
  simp only [Eval.assign, eval_get_bind_apply, hs.recorded.table hsited.accepted hmem,
    hs.recorded'.table hsited.accepted hmem]
  unfold renameAt at hname
  cases hhops : code.table id with
  | none =>
      rw [hhops] at hname
      exact simulates_walkAssign ⟨htoken, hname⟩ hv s s' hs
  | some k =>
      rw [hhops] at hname htable
      rw [hname]
      obtain ⟨scope, b, hscope, hx⟩ := Scopes.exists_of_hops? htable.symm
      exact simulates_writeAt hsited.covers hscope hx hplain.1 hplain.2 hv s s' hs

end

end

end Lox
