import Lox.Proofs.Simulation.Likeness

/-!
# Worlds

A world is what is known of two runs at some moment.  It only grows: frames, natives and code are
added, and frames come to bind more names.  Frames that classes make for `this` and `super` are
fixtures: they bind nothing else ever after.  `Sited` says that code belongs into an environment.
-/

namespace Lox

/-- Whether a class is another one or inherits from it. -/
inductive Class.Inherits (home : Class) : Class → Prop where
  | self : Class.Inherits home home
  | base : Class.Inherits home base → Class.Inherits home (.mk number label (some base) own)

/-- What a class has a frame for: `this`, for a method of the class `home` that is bound to an
instance, or `super`. -/
inductive Fixture where
  | this (object : InstanceId) (cls home : Class) (method : Closure)
  | super (base : Class)

def Fixture.name : Fixture → String
  | .this _ _ _ _ => "this"
  | .super _ => "super"

def Fixture.value : Fixture → Value
  | .this object cls _ _ => .object object cls
  | .super base => .classObject base

def Fixture.bindings (fixture : Fixture) : Bindings Value :=
  [(fixture.name, fixture.value)]

/-- How far the second run is ahead of the first one. -/
structure Pace where
  /-- The lines that only the second run has printed. -/
  ahead : Array String := #[]
  /-- Whether the flags are those of different runs. -/
  stale : Bool := false
  /-- How many references only the first run has numbered. -/
  gap : Nat := 0

/-- The pace of two runs that begin together. -/
def Pace.reset (p : Pace) : Pace :=
  { gap := p.gap }

structure World where
  /-- The number of frames. -/
  frames : Nat
  /-- How a frame renames its variables. -/
  rename : FrameId → String → String
  /-- The names that a frame is known to bind. -/
  declared : FrameId → String → Prop
  /-- The frames that classes made, as the first run has them. -/
  fixture : FrameId → Option Fixture
  /-- How many arguments each native takes. -/
  natives : List Nat
  /-- The code that was accepted. -/
  code : Code → Prop
  pace : Pace

namespace World

/-- A world that may come after another one. -/
protected structure le (w w' : World) : Prop where
  frames : w.frames ≤ w'.frames
  rename : ∀ {f}, f < w.frames → w'.rename f = w.rename f
  declared : ∀ {f x}, w.declared f x → w'.declared f x
  fixture : ∀ {f}, f < w.frames → w'.fixture f = w.fixture f
  natives : w.natives <+: w'.natives
  code : ∀ {c}, w.code c → w'.code c

instance : LE World := ⟨World.le⟩

variable {w w' w'' : World}

theorem le_refl (w : World) : w ≤ w :=
  ⟨Nat.le_refl _, fun _ => rfl, fun h => h, fun _ => rfl, List.prefix_refl _, fun h => h⟩

theorem le_trans (h : w ≤ w') (h' : w' ≤ w'') : w ≤ w'' where
  frames := Nat.le_trans h.frames h'.frames
  rename hf := (h'.rename (Nat.lt_of_lt_of_le hf h.frames)).trans (h.rename hf)
  declared hx := h'.declared (h.declared hx)
  fixture hf := (h'.fixture (Nat.lt_of_lt_of_le hf h.frames)).trans (h.fixture hf)
  natives := h.natives.trans h'.natives
  code hc := h'.code (h.code hc)

def paced (w : World) (pace : Pace) : World :=
  { w with pace := pace }

theorem le_paced (w : World) (pace : Pace) : w ≤ w.paced pace where
  frames := Nat.le_refl _
  rename _ := rfl
  declared h := h
  fixture _ := rfl
  natives := List.prefix_refl _
  code h := h

/-- The world in which both runs begin anew. -/
def reset (w : World) : World :=
  w.paced w.pace.reset

theorem le_reset (w : World) : w ≤ w.reset :=
  w.le_paced w.pace.reset

/-- A world that comes after another one while both runs go on.  A host function may have begun a run
in the meantime. -/
structure Later (ℓ : Likeness) (w w' : World) : Prop where
  le : w ≤ w'
  pace : w'.pace = w.pace ∨ ℓ.reentry ∧ w'.pace = w.pace.reset

variable {ℓ : Likeness}

theorem later_refl (w : World) : Later ℓ w w :=
  ⟨le_refl w, .inl rfl⟩

theorem later_reset (h : ℓ.reentry) (w : World) : Later ℓ w w.reset :=
  ⟨le_reset w, .inr ⟨h, rfl⟩⟩

theorem Later.trans (h : Later ℓ w w') (h' : Later ℓ w' w'') : Later ℓ w w'' where
  le := le_trans h.le h'.le
  pace := by
    rcases h'.pace with h' | ⟨hreentry, h'⟩
    · rw [h']
      exact h.pace
    · refine .inr ⟨hreentry, ?_⟩
      rcases h.pace with h | ⟨-, h⟩
      · rw [h', h]
      · rw [h', h]
        rfl

theorem Later.pace_of_reset (h : Later ℓ w.reset w') : w'.pace = w.pace.reset := by
  rcases h.pace with h | ⟨-, h⟩
  · exact h
  · exact h

theorem getElem?_natives (h : w ≤ w') {id : NativeId} {arity : Nat}
    (hid : w.natives[id]? = some arity) : w'.natives[id]? = some arity := by
  obtain ⟨more, hmore⟩ := h.natives
  obtain ⟨hlt, -⟩ := List.getElem?_eq_some_iff.mp hid
  rw [← hmore, List.getElem?_append_left hlt, hid]

end World

/-! ## Environments -/

/-- Which scope the frame before an environment stands for. -/
inductive StandsFor (env : Environment) : Option Fixture → Scope → Prop where
  | plain : scope.Ordinary → StandsFor env none scope
  | this : Class.Inherits home cls → (name, method) ∈ home.methods → method.env = env →
      StandsFor env (some (.this object cls home method)) thisScope
  | super : StandsFor env (some (.super base)) superScope

/-- An environment has one frame for each open scope and the global one, inner frames newer than outer
ones.  Each frame binds what its scope has initialised, and renames its variables like its scope. -/
inductive Covers (w : World) : Environment → Scopes → List (String → String) → Prop where
  | globals : Covers w Session.globals [] []
  | inner : f < w.frames → (∀ g ∈ env, g < f) → w.rename f = ρ →
      (∀ {x}, Bindings.find? scope x = some true → w.declared f x) →
      StandsFor env (w.fixture f) scope → Covers w env σ ρs →
      Covers w (f :: env) (scope :: σ) (ρ :: ρs)

section

variable {w w' : World} {env : Environment} {σ : Scopes} {ρs : List (String → String)}

theorem Covers.mono (hw : w ≤ w') (h : Covers w env σ ρs) : Covers w' env σ ρs := by
  induction h with
  | globals => exact .globals
  | inner hf hnewest hrename hdeclared hstands _ ih =>
      refine .inner (Nat.lt_of_lt_of_le hf hw.frames) hnewest ((hw.rename hf).trans hrename)
        (fun hx => hw.declared (hdeclared hx)) ?_ ih
      rw [hw.fixture hf]
      exact hstands

theorem Covers.globalFrame_mem (h : Covers w env σ ρs) : Session.globalFrame ∈ env := by
  induction h with
  | globals => exact List.mem_cons_self
  | inner _ _ _ _ _ _ ih => exact List.mem_cons_of_mem _ ih

theorem Covers.lt_frames (h : Covers w env σ ρs) (hglobals : 0 < w.frames) :
    ∀ g ∈ env, g < w.frames := by
  induction h with
  | globals =>
      intro g hg
      rw [List.mem_singleton.mp hg]
      exact hglobals
  | inner hf _ _ _ _ _ ih =>
      intro g hg
      rcases List.mem_cons.mp hg with rfl | hg
      · exact hf
      · exact ih g hg

/-- There is exactly one frame for each open scope, besides the global one. -/
theorem Covers.length_eq (h : Covers w env σ ρs) : env.length = σ.length + 1 := by
  induction h with
  | globals => rfl
  | inner _ _ _ _ _ _ ih => simp only [List.length_cons, ih]

/-- What is known of the frame of a scope. -/
structure FrameOf (w : World) (env : Environment) (ρs : List (String → String)) (k : Nat)
    (scope : Scope) (f : FrameId) (outer : Environment) : Prop where
  drop : env.drop k = f :: outer
  lt : f < w.frames
  nonglobal : f ≠ Session.globalFrame
  rename : ρs[k]? = some (w.rename f)
  declared : ∀ {x}, scope.find? x = some true → w.declared f x
  standsFor : StandsFor outer (w.fixture f) scope

theorem Covers.frame (h : Covers w env σ ρs) {k : Nat} {scope : Scope}
    (hscope : σ[k]? = some scope) : ∃ f outer, FrameOf w env ρs k scope f outer := by
  induction h generalizing k with
  | globals => cases hscope
  | @inner f env ρ _ σ ρs hf hnewest hrename hdeclared hstands houter ih =>
      cases k with
      | zero =>
          obtain rfl := Option.some.inj hscope
          have hlocal := Nat.ne_of_gt (hnewest _ houter.globalFrame_mem)
          exact ⟨f, env, rfl, hf, hlocal, congrArg some hrename.symm, hdeclared, hstands⟩
      | succ k =>
          obtain ⟨g, outer, hframe⟩ := ih hscope
          exact ⟨g, outer, hframe.drop, hframe.lt, hframe.nonglobal, hframe.rename, hframe.declared,
            hframe.standsFor⟩

/-- A scope that binds a plain name is not one that a class makes. -/
theorem StandsFor.eq_none {fixture : Option Fixture} {scope : Scope} (h : StandsFor env fixture scope)
    {x : String} {b : Bool} (hx : scope.find? x = some b) (hthis : x ≠ "this")
    (hsuper : x ≠ "super") : fixture = none := by
  cases h with
  | plain _ => rfl
  | this _ _ _ => simp [thisScope, Bindings.find?, hthis.symm] at hx
  | super => simp [superScope, Bindings.find?, hsuper.symm] at hx

end

/-! ## Methods around code -/

/-- A reference of the method, if there is one, that an environment was made for.  Methods of classes
inside of it have environments of their own. -/
def Held (w : World) (id : NodeId) : Environment → Prop
  | [] => True
  | f :: env =>
    match w.fixture f with
    | some (.this _ _ _ method) => id ∈ method.decl.ownIds
    | _ => Held w id env

theorem Held.mono {w w' : World} (hw : w ≤ w') {id : NodeId} {env : Environment}
    (henv : ∀ f ∈ env, f < w.frames) (h : Held w id env) : Held w' id env := by
  induction env with
  | nil => trivial
  | cons f env ih =>
      unfold Held at h ⊢
      rw [hw.fixture (henv f List.mem_cons_self)]
      split
      · next heq =>
          rw [heq] at h
          exact h
      · next hother =>
          refine ih (fun g hg => henv g (List.mem_cons_of_mem f hg)) ?_
          split at h
          · next heq => exact absurd heq (hother _ _ _ _)
          · exact h

/-- Code that belongs into an environment. -/
structure Sited (w : World) (code : Code) (c : Context) (σ : Scopes)
    (ρs : List (String → String)) (env : Environment) (part : Part) : Prop where
  accepted : w.code code
  reaches : Reaches code.part c σ part
  covers : Covers w env σ ρs
  bounded : ∀ f ∈ env, f < w.frames
  held : ∀ id ∈ part.ownIds, Held w id env

namespace Sited

variable {w w' : World} {code : Code} {c : Context} {σ : Scopes} {ρs : List (String → String)}
  {env : Environment} {part : Part}

theorem mono (hw : w ≤ w') (h : Sited w code c σ ρs env part) :
    Sited w' code c σ ρs env part where
  accepted := hw.code h.accepted
  reaches := h.reaches
  covers := h.covers.mono hw
  bounded f hf := Nat.lt_of_lt_of_le (h.bounded f hf) hw.frames
  held id hid := (h.held id hid).mono hw h.bounded

theorem checked (h : Sited w code c σ ρs env part) : Checked code.table c σ part :=
  h.reaches.checked code.checked

theorem id_mem (h : Sited w code c σ ρs env part) {id : NodeId} (hid : id ∈ part.ids) :
    id ∈ code.part.ids :=
  h.reaches.id_mem hid

theorem sub (h : Sited w code c σ ρs env part) {c' : Context} {part' : Part}
    (hreaches : Reaches code.part c' σ part') (hids : ∀ id ∈ part'.ownIds, id ∈ part.ownIds) :
    Sited w code c' σ ρs env part' :=
  ⟨h.accepted, hreaches, h.covers, h.bounded, fun id hid => h.held id (hids id hid)⟩

section

variable {e left right value : Expr} {es : List Expr} {op name paren keyword : Token}
  {number : NodeId}

theorem grouping (h : Sited w code c σ ρs env (.expr (.grouping number e))) :
    Sited w code c σ ρs env (.expr e) :=
  h.sub h.reaches.grouping fun _ hid => hid

theorem unary (h : Sited w code c σ ρs env (.expr (.unary number op e))) :
    Sited w code c σ ρs env (.expr e) :=
  h.sub h.reaches.unary fun _ hid => hid

theorem binaryLeft (h : Sited w code c σ ρs env (.expr (.binary number left op right))) :
    Sited w code c σ ρs env (.expr left) :=
  h.sub h.reaches.binaryLeft fun _ => List.mem_append_left _

theorem binaryRight (h : Sited w code c σ ρs env (.expr (.binary number left op right))) :
    Sited w code c σ ρs env (.expr right) :=
  h.sub h.reaches.binaryRight fun _ => List.mem_append_right _

theorem logicalLeft (h : Sited w code c σ ρs env (.expr (.logical number left op right))) :
    Sited w code c σ ρs env (.expr left) :=
  h.sub h.reaches.logicalLeft fun _ => List.mem_append_left _

theorem logicalRight (h : Sited w code c σ ρs env (.expr (.logical number left op right))) :
    Sited w code c σ ρs env (.expr right) :=
  h.sub h.reaches.logicalRight fun _ => List.mem_append_right _

theorem assigned (h : Sited w code c σ ρs env (.expr (.assign number name e))) :
    Sited w code c σ ρs env (.expr e) :=
  h.sub h.reaches.assigned fun _ => List.mem_append_left _

theorem callee (h : Sited w code c σ ρs env (.expr (.call number e paren es))) :
    Sited w code c σ ρs env (.expr e) :=
  h.sub h.reaches.callee fun _ => List.mem_append_left _

theorem arguments (h : Sited w code c σ ρs env (.expr (.call number e paren es))) :
    Sited w code c σ ρs env (.exprs es) :=
  h.sub h.reaches.arguments fun _ => List.mem_append_right _

theorem getObject (h : Sited w code c σ ρs env (.expr (.get number e name))) :
    Sited w code c σ ρs env (.expr e) :=
  h.sub h.reaches.getObject fun _ hid => hid

theorem setObject (h : Sited w code c σ ρs env (.expr (.set number e name value))) :
    Sited w code c σ ρs env (.expr e) :=
  h.sub h.reaches.setObject fun _ => List.mem_append_left _

theorem setValue (h : Sited w code c σ ρs env (.expr (.set number e name value))) :
    Sited w code c σ ρs env (.expr value) :=
  h.sub h.reaches.setValue fun _ => List.mem_append_right _

theorem firstArgument (h : Sited w code c σ ρs env (.exprs (e :: es))) :
    Sited w code c σ ρs env (.expr e) :=
  h.sub h.reaches.firstArgument fun _ => List.mem_append_left _

theorem moreArguments (h : Sited w code c σ ρs env (.exprs (e :: es))) :
    Sited w code c σ ρs env (.exprs es) :=
  h.sub h.reaches.moreArguments fun _ => List.mem_append_right _

end

section

variable {e : Expr} {s first second : Stmt} {otherwise : Option Stmt} {ss : List Stmt}
  {name keyword : Token} {decl : FunDecl}

theorem expression (h : Sited w code c σ ρs env (.stmt (.expression e))) :
    Sited w code c σ ρs env (.expr e) :=
  h.sub h.reaches.expression fun _ hid => hid

theorem print (h : Sited w code c σ ρs env (.stmt (.print e))) :
    Sited w code c σ ρs env (.expr e) :=
  h.sub h.reaches.print fun _ hid => hid

theorem initial (h : Sited w code c σ ρs env (.stmt (.var name (some e))))
    (hcovers : Covers w env (σ.declare name) ρs) :
    Sited w code c (σ.declare name) ρs env (.expr e) :=
  ⟨h.accepted, h.reaches.initial, hcovers, h.bounded, h.held⟩

theorem returned (h : Sited w code c σ ρs env (.stmt (.ret keyword (some e)))) :
    Sited w code c σ ρs env (.expr e) :=
  h.sub h.reaches.returned fun _ hid => hid

theorem condition (h : Sited w code c σ ρs env (.stmt (.cond e first otherwise))) :
    Sited w code c σ ρs env (.expr e) := by
  apply h.sub h.reaches.condition
  intro id hid
  cases otherwise with
  | none => exact List.mem_append_left _ hid
  | some _ => exact List.mem_append_left _ (List.mem_append_left _ hid)

theorem yes (h : Sited w code c σ ρs env (.stmt (.cond e first otherwise))) :
    Sited w code c σ ρs env (.stmt first) := by
  apply h.sub h.reaches.yes
  intro id hid
  cases otherwise with
  | none => exact List.mem_append_right _ hid
  | some _ => exact List.mem_append_left _ (List.mem_append_right _ hid)

theorem no (h : Sited w code c σ ρs env (.stmt (.cond e first (some second)))) :
    Sited w code c σ ρs env (.stmt second) := by
  have hformed : (Stmt.cond e first (some second)).Formed := h.checked.formed
  have hreaches := h.reaches.no
  rw [code.resolve_snd h.reaches.yes hformed.2.1.2] at hreaches
  exact h.sub hreaches fun _ => List.mem_append_right _

theorem loopCondition (h : Sited w code c σ ρs env (.stmt (.loop e s))) :
    Sited w code c σ ρs env (.expr e) :=
  h.sub h.reaches.loopCondition fun _ => List.mem_append_left _

theorem loopBody (h : Sited w code c σ ρs env (.stmt (.loop e s))) :
    Sited w code c σ ρs env (.stmt s) :=
  h.sub h.reaches.loopBody fun _ => List.mem_append_right _

theorem firstStmt (h : Sited w code c σ ρs env (.body (s :: ss))) :
    Sited w code c σ ρs env (.stmt s) :=
  h.sub h.reaches.firstStmt fun _ => List.mem_append_left _

theorem moreStmts (h : Sited w code c σ ρs env (.body (s :: ss)))
    (hcovers : Covers w env (s.resolve c σ).2 ρs) :
    Sited w code c (s.resolve c σ).2 ρs env (.body ss) :=
  ⟨h.accepted, h.reaches.moreStmts, hcovers, h.bounded,
    fun id hid => h.held id (List.mem_append_right _ hid)⟩

theorem function (h : Sited w code c σ ρs env (.stmt (.function decl)))
    (hcovers : Covers w env (σ.settle decl.name) ρs) :
    Sited w code { c with inFunction := some .function } (σ.settle decl.name) ρs env
      (.function decl) :=
  ⟨h.accepted, h.reaches.function, hcovers, h.bounded, h.held⟩

theorem root (hcode : w.code code) (hglobals : 0 < w.frames)
    (hopen : w.fixture Session.globalFrame = none) :
    Sited w code {} [] [] Session.globals code.part where
  accepted := hcode
  reaches := .root
  covers := .globals
  bounded f hf := by
    rw [List.mem_singleton.mp hf]
    exact hglobals
  held id _ := by
    simp only [Session.globals, Held, hopen]

end

end Sited

end Lox
