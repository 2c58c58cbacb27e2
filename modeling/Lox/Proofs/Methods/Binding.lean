import Lox.Proofs.Names.Lasting
import Lox.Proofs.Soundness.Progress

/-!
# Methods, `this` and `super`

A method that is a value is bound: its own frame has `this` and nothing else, and around that frame
there is `super`, if the class that declares the method has a superclass.  So `super` always leads to
the superclass of the class whose text it stands in, and an initializer always gives its instance.
-/

namespace Lox

/-! ## Bound methods -/

/-- A class as its declaration in accepted code makes it.  The frame around its methods has `super` and
nothing else, if there is a superclass. -/
structure Class.DeclaredBy (home : Class) (s : Session) (name : Token)
    (base : Option (NodeId × Token)) (decls : List FunDecl) (env : Environment) : Prop where
  accepted : ∃ root c σ, Part.Accepted root ∧
    Reaches root c σ (.stmt (.classDecl name base decls))
  name_eq : home.name = name.lexeme
  based : home.superclass.isSome = base.isSome
  methods : ∀ {x method}, (x, method) ∈ home.methods → method.decl ∈ decls ∧ method.env = env ∧
    method.role = .ofMethod method.decl
  super : ∀ {b}, home.superclass = some b → ∃ frame outer, env = frame :: outer ∧
    s.frames.bindings frame = [("super", .classObject b)]

/-- The class whose declaration contains a method. -/
def Class.Declares (home : Class) (s : Session) (method : Closure) : Prop :=
  (∃ x, (x, method) ∈ home.methods) ∧
    ∃ name base decls, home.DeclaredBy s name base decls method.env

/-- A method of the class `home` that is bound to an instance of the class `cls`. -/
structure Closure.BoundTo (f : Closure) (s : Session) (frame : FrameId) (i : InstanceId)
    (cls home : Class) (method : Closure) : Prop where
  env_eq : f.env = frame :: method.env
  decl_eq : f.decl = method.decl
  role_eq : f.role = method.role
  nonglobal : frame ≠ Session.globalFrame
  this : s.frames.bindings frame = [("this", .object i cls)]
  inherits : Class.Inherits home cls
  declares : home.Declares s method

/-- A function as a value: a statement declares it, or it is a bound method. -/
inductive Closure.InPlace (s : Session) (f : Closure) : Prop where
  | function : f.role = .function → Part.Accepted root →
      Reaches root c σ (.stmt (.function f.decl)) → Closure.InPlace s f
  | method : f.role ≠ .function → f.BoundTo s frame i cls home method → Closure.InPlace s f

def Value.InPlace (s : Session) (v : Value) : Prop :=
  ∀ f, v = .closure f → f.InPlace s

/-- All variables and fields have such values. -/
structure Session.InPlace (s : Session) : Prop where
  frames : ∀ {f x v}, (x, v) ∈ s.frames.bindings f → v.InPlace s
  fields : ∀ {i x v}, (x, v) ∈ s.fields.getD i [] → v.InPlace s

section

variable {strict : Prop} {w : World} {s : Session}

theorem Frames.Alike.value_alike {ℓ : Likeness} {fs fs' : Frames Value}
    (h : Frames.Alike ℓ w fs fs') {f : FrameId} {fixture : Fixture}
    (hfixture : w.fixture f = some fixture) : ∃ v', Value.Alike ℓ w fixture.value v' := by
  have hbindings := h.bindings f
  rw [h.fixed hfixture] at hbindings
  generalize fs'.bindings f = b' at hbindings
  cases hbindings with
  | cons hv _ => exact ⟨_, hv⟩

theorem Class.Made.declares {home : Class} (h : home.Made w)
    (hs : Session.Alike (.exact strict) w s s) {x : String} {method : Closure}
    (hmem : (x, method) ∈ home.methods) : home.Declares s method := by
  obtain ⟨code, c, σ, name, base, decls, env, hmade⟩ := h
  obtain ⟨-, rfl, -⟩ := hmade.methods hmem
  refine ⟨⟨x, hmem⟩, name, base, decls, ?_⟩
  constructor
  · exact ⟨code.part, c, σ, hs.genuine hmade.accepted, hmade.reaches⟩
  · exact hmade.name_eq
  · exact hmade.based
  · exact hmade.methods
  · intro b hb
    obtain ⟨frame, outer, henv, hfixture⟩ := (hmade.superclass b).mp hb
    exact ⟨frame, outer, henv, hs.frames.fixed hfixture⟩

theorem Closure.Alike.inPlace {f f' : Closure} (h : Closure.Alike (.exact strict) w f f')
    (hs : Session.Alike (.exact strict) w s s) : f.InPlace s := by
  by_cases hrole : f.role = .function
  · obtain ⟨code, c, σ, hcode, hreaches⟩ := h.declared hrole
    exact .function hrole (hs.genuine hcode) hreaches
  · obtain ⟨frame, outer, i, cls, home, method, henv, -, hfixture, hdecl, hmethod⟩ := h.bound hrole
    obtain ⟨code, c, σ, ρs, -, hsited, -⟩ := h.placed
    have hcovers := hsited.covers
    rw [henv] at hcovers
    cases hcovers with
    | globals => cases hs.frames.free_globals.symm.trans hfixture
    | inner _ _ _ _ hstands _ =>
        rw [hfixture] at hstands
        cases hstands with
        | this hinherits hmem houter =>
            obtain ⟨v', hv⟩ := hs.frames.value_alike hfixture
            refine .method hrole ⟨henv.trans (by rw [houter]), hdecl.symm, hmethod.symm, ?_,
              hs.frames.fixed hfixture, hinherits, ?_⟩
            · rintro rfl
              cases hs.frames.free_globals.symm.trans hfixture
            · cases hv with
              | object hcls => exact (hcls.made hinherits).declares hs hmem

theorem Value.Alike.inPlace {v v' : Value} (h : Value.Alike (.exact strict) w v v')
    (hs : Session.Alike (.exact strict) w s s) : v.InPlace s := by
  rintro f rfl
  cases h with
  | closure hf => exact hf.inPlace hs

theorem Bindings.Alike.of_mem {α : Type} {R : α → α → Prop} {ρ : String → String}
    {b b' : Bindings α} (h : Bindings.Alike R ρ b b') {x : String} {v : α} (hv : (x, v) ∈ b) :
    ∃ v', R v v' := by
  induction h with
  | nil => cases hv
  | cons hR _ ih =>
      rcases List.mem_cons.mp hv with heq | hv
      · cases heq
        exact ⟨_, hR⟩
      · exact ih hv

theorem Session.Alike.inPlace (hs : Session.Alike (.exact strict) w s s) : s.InPlace where
  frames hv := by
    obtain ⟨v', h⟩ := (hs.frames.bindings _).of_mem hv
    exact h.inPlace hs
  fields hv := by
    obtain ⟨v', h⟩ := (hs.fields.bindings _).of_mem hv
    exact h.inPlace hs

end

/-! ## Values in evaluations -/

/-- The values that a call is made of. -/
def Task.Takes : Task → Value → Prop
  | .invoke _ callee arguments, v => v = callee ∨ v ∈ arguments
  | _, _ => False

/-- The values that an evaluation comes to. -/
def Task.Gives (n : Nat) (s s' : Session) (v : Value) : Task → Prop
  | .eval env e => Eval.eval n env e s = .ok v s'
  | .evalAll env es => ∃ vs, Eval.evalAll n env es s = .ok vs s' ∧ v ∈ vs
  | .exec env st => Eval.exec n env st s = .ok (.returned v) s'
  | .execAll env ss => Eval.execAll n env ss s = .ok (.returned v) s'
  | .invoke site callee arguments => Eval.invoke n site callee arguments s = .ok v s'
  | .perform action => Eval.perform n action s = .ok v s'

/-- An evaluation before and after which all methods that are values are bound. -/
structure Task.InPlace (n : Nat) (s : Session) (task : Task) : Prop where
  before : s.InPlace
  takes : ∀ {v}, task.Takes v → v.InPlace s
  after : (task.leaves n s).InPlace
  gives : ∀ {v s'}, task.Gives n s s' v → v.InPlace s'

section

variable {strict : Prop} {w : World} {s : Session} {task : Task}

theorem Task.Placed.takes {ℓ : Likeness} (h : task.Placed ℓ w) {v : Value} (hv : task.Takes v) :
    Value.Alike ℓ w v v := by
  cases h with
  | invoke _ hf hvs _ =>
      rcases hv with rfl | hv
      · exact hf
      · exact List.forall₂_same.mp hvs v hv
  | _ => cases hv

theorem Task.Placed.gives {ℓ : Likeness} (hs : Session.Alike ℓ w s s) (h : task.Placed ℓ w)
    {n : Nat} {v : Value} {s' : Session} (hv : task.Gives n s s' v) :
    ∃ w', Session.Alike ℓ w' s' s' ∧ Value.Alike ℓ w' v v := by
  have heval : EvaluatesAlike ℓ True n n := evaluatesAlike_same n
  cases h with
  | eval hsited h =>
      obtain ⟨w', -, hs', hvalue⟩ := (heval.eval hsited h).done hs hv
      exact ⟨w', hs', hvalue⟩
  | evalAll hsited h =>
      obtain ⟨vs, hvs, hmem⟩ := hv
      obtain ⟨w', -, hs', hvalues⟩ := (heval.evalAll hsited h).done hs hvs
      exact ⟨w', hs', List.forall₂_same.mp hvalues v hmem⟩
  | exec hsited h =>
      obtain ⟨w', -, hs', hend⟩ := (heval.exec hsited h).done hs hv
      exact ⟨w', hs', hend.value⟩
  | execAll hsited h =>
      obtain ⟨w', -, hs', hend⟩ := (heval.execAll hsited h).done hs hv
      exact ⟨w', hs', hend.value⟩
  | invoke hsite hf hvs harity =>
      obtain ⟨w', -, hs', hvalue⟩ := (heval.invoke hsite hf hvs harity).done hs hv
      exact ⟨w', hs', hvalue⟩
  | perform h =>
      obtain ⟨w', -, hs', hvalue⟩ := (heval.perform h).done hs hv
      exact ⟨w', hs', hvalue⟩

theorem Task.Stands.inPlace (h : task.Stands (.exact strict) w s) (n : Nat) : task.InPlace n s := by
  obtain ⟨w₁, -, hs, hplaced⟩ := h
  constructor
  · exact hs.inPlace
  · exact fun hv => (hplaced.takes hv).inPlace hs
  · obtain ⟨w₂, -, hleft⟩ := hplaced.left hs n
    exact hleft.inPlace
  · intro v s' hv
    obtain ⟨w₂, hs', hvalue⟩ := hplaced.gives hs hv
    exact hvalue.inPlace hs'

end

/-! ## `super` -/

/-- A method of a class, or of the nearest one that it inherits from, bound to an instance. -/
def Eval.methodFrom (start : Class) (this : Value) (name : Token) : Eval Value :=
  match start.findMethod? name.lexeme with
  | some found => do return .closure (← bindThis found this)
  | none => fault name (.undefinedProperty name.lexeme)

theorem Eval.superMethod_eq {s : Session} {env : Environment} {id : NodeId} {name : Token} {k : Nat}
    {base : Class} {this : Value} (hhops : s.hops.find? id = some (k + 1))
    (hsuper : Eval.readAt env (k + 1 : Nat) "super" s = .ok (.classObject base) s)
    (hthis : Eval.readAt env k "this" s = .ok this s) :
    Eval.superMethod env id name s = Eval.methodFrom base this name s := by
  have hk : ((k + 1 : Nat) : Int) - 1 = k := by omega
  unfold Eval.superMethod Eval.methodFrom
  rw [eval_get_bind_apply, hhops]
  dsimp only
  rw [eval_bind_ok hsuper, hk]
  exact eval_bind_ok hthis

/-- The frames around a reference to `super`. -/
structure MethodFrames (w : World) (env : Environment) (k : Nat) (f g : FrameId) (i : InstanceId)
    (cls home base : Class) (owner : Closure) : Prop where
  drop : ∃ outer, env.drop k = f :: g :: outer ∧ owner.env = g :: outer
  this : w.fixture f = some (.this i cls home owner)
  inherits : Class.Inherits home cls
  own : ∃ x, (x, owner) ∈ home.methods
  super : w.fixture g = some (.super base)

section

variable {strict : Prop} {w : World} {s : Session} {env : Environment} {σ : Scopes}
  {ρs : List (String → String)}

/-- Only frames of blocks and functions lie inside of the innermost frame of a method. -/
theorem Covers.methodFrames {fs fs' : Frames Value} {ℓ : Likeness}
    (hframes : Frames.Alike ℓ w fs fs') (hnesting : Nesting .subclass σ)
    (hcovers : Covers w env σ ρs) {id : NodeId} (hheld : Held w id env) :
    ∃ k f g i cls home base owner, σ.hops? "super" = some (k + 1) ∧
      MethodFrames w env k f g i cls home base owner ∧ id ∈ owner.decl.ownIds ∧
        fs.find? env "this" = some (.object i cls) := by
  generalize hcontext : ClassContext.subclass = context at hnesting
  induction hnesting generalizing env ρs with
  | globals => cases hcontext
  | plain _ _ => cases hcontext
  | scope hscope _ ih =>
      cases hcovers with
      | @inner f env ρ _ _ ρs _ hnewest _ _ hstands houter =>
          have hfree := hstands.eq_none_of_ordinary hscope
          have hlocal : f ≠ Session.globalFrame := Nat.ne_of_gt (hnewest _ houter.globalFrame_mem)
          simp only [Held, hfree] at hheld
          obtain ⟨k, g, g', i, cls, home, base, owner, hk, hat, hown, hthis⟩ :=
            ih houter hheld hcontext
          refine ⟨k + 1, g, g', i, cls, home, base, owner, ?_, ?_, hown, ?_⟩
          · rw [Scopes.hops?_cons, if_neg (by simp [Bindings.binds, hscope.2]), hk]
            rfl
          · exact ⟨hat.drop, hat.this, hat.inherits, hat.own, hat.super⟩
          · have hnone := Bindings.binds_eq_false.mp (hframes.free hfree hlocal)
            simp only [Frames.find?, hnone, hthis]
  | subclass _ _ =>
      cases hcovers with
      | @inner f _ _ _ _ _ _ _ _ _ hstands houter =>
          cases houter with
          | @inner g outer _ _ _ _ _ _ _ _ hstands' _ =>
              obtain ⟨i, cls, home, owner, x, hthis, hinherits, hmem, henv⟩ := hstands.this_inv rfl
              obtain ⟨base, hsuper⟩ := hstands'.super_inv rfl
              simp only [Held, hthis] at hheld
              refine ⟨0, f, g, i, cls, home, base, owner, rfl, ?_, hheld, ?_⟩
              · exact ⟨⟨outer, rfl, henv⟩, hthis, hinherits, ⟨x, hmem⟩, hsuper⟩
              · simp only [Frames.find?]
                rw [show "this" = (Fixture.this i cls home owner).name from rfl,
                  hframes.find?_fixture hthis]
                rfl

/-- What a reference to `super` leads to: the search for the method begins at the superclass of the
class whose own text has the reference in it, and what it finds is bound to the present instance. -/
structure SuperLeads (n : Nat) (s : Session) (env : Environment) (id : NodeId)
    (keyword name : Token) (i : InstanceId) (cls home base : Class) (owner : Closure) : Prop where
  declares : home.Declares s owner
  within : id ∈ owner.decl.ownIds
  superclass : home.superclass = some base
  inherits : Class.Inherits home cls
  this : s.frames.find? env "this" = some (.object i cls)
  eval_eq : Eval.eval (n + 1) env (.super id keyword name) s =
    Eval.methodFrom base (.object i cls) name s

theorem Task.Stands.super {id : NodeId} {keyword name : Token}
    (h : Task.Stands (.exact strict) w (.eval env (.super id keyword name)) s) (n : Nat) :
    ∃ i cls home base owner, SuperLeads n s env id keyword name i cls home base owner := by
  obtain ⟨w₁, -, hs, hplaced⟩ := h
  cases hplaced with
  | eval hsited _ =>
      obtain ⟨hnesting, htable⟩ := hsited.checked.inSubclass
      obtain ⟨k, f, g, i, cls, home, base, owner, hk, hframes, hwithin, hthis⟩ :=
        hsited.covers.methodFrames hs.frames hnesting (hsited.held id List.mem_cons_self)
      obtain ⟨outer, hdrop, henv⟩ := hframes.drop
      obtain ⟨x, hmem⟩ := hframes.own
      obtain ⟨v', hv⟩ := hs.frames.value_alike hframes.this
      cases hv with
      | object hcls =>
          refine ⟨i, cls, home, base, owner, ?_, hwithin, ?_, hframes.inherits, hthis, ?_⟩
          · exact (hcls.made hframes.inherits).declares hs hmem
          · exact superclass_of_frames hcls hframes.inherits hmem henv hframes.super
          · have hdrop' : env.drop (k + 1) = g :: outer := by
              rw [← List.drop_drop, hdrop]
              rfl
            have hhops : s.hops.find? id = some (k + 1) := by
              rw [hs.recorded.table hsited.accepted (hsited.id_mem List.mem_cons_self), htable, hk]
            have hreadSuper := Eval.readAt_eq_ok hdrop' (hs.frames.find?_fixture hframes.super)
            have hreadThis := Eval.readAt_eq_ok hdrop (hs.frames.find?_fixture hframes.this)
            exact Eval.superMethod_eq hhops hreadSuper hreadThis

end

/-! ## Initializers -/

section

variable {ℓ : Likeness} {w : World} {s : Session} {n : Nat} {site : Token} {vs : List Value}
  {env : Environment} {s₁ s₂ : Session} {completion : Completion}

theorem Eval.nested_eq_ok {α : Type} {step : Eval α} {a : α} (hroom : s.HasRoom)
    (hstep : step s.deeper = .ok a s₁) :
    Eval.nested site step s = .ok a s₁.shallower := by
  rw [Eval.nested_of_room hroom, hstep]

/-- However its body ends, a bound initializer gives the instance in the frame around it. -/
theorem Eval.activate_initializer {f : Closure} (hrole : f.role = .initializer) {frame : FrameId}
    {outer : Environment} (henv : f.env = frame :: outer) {this : Value}
    (hopen : Eval.open f vs s = .ok env s₁)
    (hbody : Eval.execAll n env f.decl.body s₁ = .ok completion s₂)
    (hthis : s₂.frames.bindings frame = [("this", this)]) :
    Eval.activate (Eval.execAll n) f vs s = .ok this s₂ := by
  rw [Eval.activate_eq, eval_bind_ok hopen, eval_bind_ok hbody, if_pos hrole]
  have hdrop : f.env.drop 0 = frame :: outer := henv
  exact Eval.readAt_eq_ok hdrop (by rw [hthis]; rfl)

theorem Calls.initializer_gives {f : Closure} {frame : FrameId} {i : InstanceId} {cls home : Class}
    {method : Closure} (hbound : f.BoundTo s frame i cls home method)
    (hrole : f.role = .initializer)
    (hstands : Task.Stands ℓ w (.invoke site (.closure f) vs) s)
    (hcalls : Calls n (.invoke site (.closure f) vs) s (.execAll env f.decl.body) s₁)
    (hbody : Eval.execAll n env f.decl.body s₁ = .ok completion s₂) :
    ∃ s', Eval.invoke (n + 1) site (.closure f) vs s = .ok (.object i cls) s' := by
  have hcalled := hcalls.keeps_called hstands
  simp only [Task.leaves, hbody, leftBy] at hcalled
  have hkeeps : s.Keeps s₂ := (hcalls.keeps hstands).trans hcalled
  have hthis : s₂.frames.bindings frame = [("this", .object i cls)] := by
    rw [hkeeps frame hbound.nonglobal (by rw [hbound.this]; rfl), hbound.this]
  cases hcalls with
  | function hroom hopen =>
      have hactivate := Eval.activate_initializer hrole hbound.env_eq hopen hbody hthis
      exact ⟨_, Eval.nested_eq_ok hroom hactivate⟩

theorem Eval.nested_inv {α : Type} {step : Eval α} {a : α}
    (h : Eval.nested site step s = .ok a s₂) : s.HasRoom ∧ ∃ s₁, step s.deeper = .ok a s₁ := by
  by_cases hroom : s.HasRoom
  · rw [Eval.nested_of_room hroom] at h
    cases hstep : step s.deeper with
    | ok a' s₁ =>
        rw [hstep] at h
        cases h
        exact ⟨hroom, s₁, rfl⟩
    | error i s₁ =>
        rw [hstep] at h
        cases h
  · obtain ⟨i, hfull⟩ := Eval.nested_of_not_room hroom site step
    cases hfull.symm.trans h

theorem Eval.invoke_closure_inv {f : Closure} {v : Value}
    (h : Eval.invoke n site (.closure f) vs s = .ok v s₂) :
    ∃ k env s₁ completion t, n = k + 1 ∧
      Calls k (.invoke site (.closure f) vs) s (.execAll env f.decl.body) s₁ ∧
        Eval.execAll k env f.decl.body s₁ = .ok completion t := by
  cases n with
  | zero => cases h
  | succ k =>
      obtain ⟨hroom, t, hactivate⟩ := Eval.nested_inv h
      rw [Eval.activate_eq] at hactivate
      obtain ⟨env, s₁, hopen, hrest⟩ := eval_bind_inv hactivate
      obtain ⟨completion, t, hbody, -⟩ := eval_bind_inv hrest
      exact ⟨k, env, s₁, completion, t, rfl, .function hroom hopen, hbody⟩

theorem Eval.bindThis_ok (method : Closure) (this : Value) (s : Session) :
    ∃ f t, Eval.bindThis method this s = .ok f t ∧ f.decl = method.decl ∧ f.role = method.role ∧
      f.env = s.frames.frames.size :: method.env ∧ s.frames.frames.size < t.frames.frames.size ∧
        t.frames.bindings s.frames.frames.size = [("this", this)] := by
  refine ⟨_, _, Eval.bindThis_apply method this s, rfl, rfl, rfl, ?_, ?_⟩
  · simp
  · rw [Frames.bindings_update, if_pos ⟨rfl, by simp⟩, Frames.bindings_push, Frames.bindings_size]
    rfl

/-- A call of a class: its initializer is bound to the new instance, and however its body ends the
call gives that instance. -/
theorem Calls.instance_gives {cls : Class} {body : List Stmt}
    (hstands : Task.Stands ℓ w (.invoke site (.classObject cls) vs) s)
    (hcalls : Calls n (.invoke site (.classObject cls) vs) s (.execAll env body) s₁)
    (hbody : Eval.execAll n env body s₁ = .ok completion s₂) :
    (∃ params frame outer, env = params :: frame :: outer ∧
      s₁.frames.bindings frame = [("this", .object s.fields.size cls)]) ∧
    ∃ s', Eval.invoke (n + 1) site (.classObject cls) vs s = .ok (.object s.fields.size cls) s' := by
  have hcalled := hcalls.keeps_called hstands
  simp only [Task.leaves, hbody, leftBy] at hcalled
  obtain ⟨w₁, -, hs, -⟩ := hstands
  have hsize : 0 < s.frames.frames.size := hs.frames.size ▸ hs.frames.globals
  cases hcalls with
  | @initializer method _ _ _ _ _ _ hroom hmethod hopen =>
      have hmake := Eval.newInstance_apply cls s.deeper
      obtain ⟨f, t, hbind, hdecl, hrole, henv, hlt, hthis⟩ := Eval.bindThis_ok method
        (.object s.deeper.fields.size cls) { s.deeper with fields := s.deeper.fields.push [] }
      have hopen : Eval.open f vs t = .ok env s₁ := by
        unfold Eval.openInitializer at hopen
        rwa [eval_bind_ok hmake, eval_bind_ok hbind] at hopen
      obtain ⟨rfl, hold⟩ := Eval.open_inv hopen
      have hthis₁ : s₁.frames.bindings s.frames.frames.size =
          [("this", .object s.fields.size cls)] :=
        (hold _ hlt).trans hthis
      refine ⟨⟨_, s.frames.frames.size, method.env, congrArg _ henv, hthis₁⟩, ?_⟩
      have hthis₂ : s₂.frames.bindings s.frames.frames.size =
          [("this", .object s.fields.size cls)] :=
        (hcalled _ (Nat.ne_of_gt hsize) (by rw [hthis₁]; rfl)).trans hthis₁
      rw [← hdecl] at hbody
      obtain ⟨v, hactivate⟩ : ∃ v, Eval.activate (Eval.execAll n) f vs t = .ok v s₂ := by
        by_cases hinit : f.role = .initializer
        · exact ⟨_, Eval.activate_initializer hinit henv hopen hbody hthis₂⟩
        · refine ⟨completion.value, ?_⟩
          rw [Eval.activate_eq, eval_bind_ok hopen, eval_bind_ok hbody, if_neg hinit]
          rfl
      have hmade : Eval.instantiate (Eval.execAll n) cls vs s.deeper =
          .ok (.object s.deeper.fields.size cls) s₂ := by
        unfold Eval.instantiate
        rw [eval_bind_ok hmake, hmethod]
        dsimp only
        rw [eval_bind_ok hbind, eval_bind_ok hactivate]
        rfl
      exact ⟨_, Eval.nested_eq_ok hroom hmade⟩

end

/-! ## Histories -/

/-- What holds of methods in a session, in every evaluation of a step, and ever after. -/
structure Step.BindsMethods (rules : HostRules) (step : Step) (s : Session)
    (known : Value → Prop) : Prop where
  inPlace : s.InPlace
  learned : ∀ {v}, known v → v.InPlace s
  /-- No later step changes the frame of a bound method. -/
  onward : ∀ {s'}, Onward rules s known s' → s.Keeps s'
  visits : ∀ {fuel n task s₁}, Visits step fuel s n task s₁ → task.InPlace n s₁
  /-- Nor does anything change it in the rest of the step. -/
  keeps : ∀ {fuel n task s₁}, Visits step fuel s n task s₁ → s.Keeps s₁ ∧
    s₁.Keeps (task.leaves n s₁) ∧ (task.leaves n s₁).Keeps (leftBy (step.take fuel s))
  super : ∀ {fuel n env id keyword name s₁},
    Visits step fuel s (n + 1) (.eval env (.super id keyword name)) s₁ →
      ∃ i cls home base owner, SuperLeads n s₁ env id keyword name i cls home base owner
  /-- A bound initializer gives its instance, and it does so however its body ends. -/
  initializer : ∀ {fuel n site f vs s₁ frame i cls home method},
    Visits step fuel s n (.invoke site (.closure f) vs) s₁ →
      f.BoundTo s₁ frame i cls home method → f.role = .initializer →
      (∀ {v s₂}, Eval.invoke n site (.closure f) vs s₁ = .ok v s₂ → v = .object i cls) ∧
      ∀ {k env s₂ completion s₃}, n = k + 1 →
        Calls k (.invoke site (.closure f) vs) s₁ (.execAll env f.decl.body) s₂ →
        Eval.execAll k env f.decl.body s₂ = .ok completion s₃ →
          ∃ s₄, Eval.invoke n site (.closure f) vs s₁ = .ok (.object i cls) s₄
  /-- So does a class whose initializer is bound to a new instance. -/
  instances : ∀ {fuel n site cls vs s₁ env body s₂ completion s₃},
    Visits step fuel s (n + 1) (.invoke site (.classObject cls) vs) s₁ →
      Calls n (.invoke site (.classObject cls) vs) s₁ (.execAll env body) s₂ →
      Eval.execAll n env body s₂ = .ok completion s₃ →
      (∃ params frame outer, env = params :: frame :: outer ∧
        s₂.frames.bindings frame = [("this", .object s₁.fields.size cls)]) ∧
      ∃ s₄, Eval.invoke (n + 1) site (.classObject cls) vs s₁ =
        .ok (.object s₁.fields.size cls) s₄

section

variable {strict : Prop} {s : Session} {known : Value → Prop} {step : Step}

/-- Methods that are values are bound for good, `super` stays with the text, and initializers give
their instances. -/
theorem History.methods_bound (h : History (.honest strict) s known)
    (hstep : step.Follows (.honest strict) known) :
    step.BindsMethods (.honest strict) s known := by
  obtain ⟨w, hs, hknown⟩ := h.alike (Likeness.exact_obeys strict) fun h => h
  have halike : Step.Alike (.exact strict) w step step :=
    hstep.alike (Likeness.exact_obeys strict) hknown
  have hstands : ∀ {fuel n task s₁}, Visits step fuel s n task s₁ →
      task.Stands (.exact strict) w s₁ :=
    fun hvisits => hvisits.stands hs (fun h => h.accepted) halike
  constructor
  · exact hs.inPlace
  · exact fun hv => (hknown _ hv).inPlace hs
  · intro s' honward
    have hlasts : s.Lasts Session.globalFrame s' :=
      hs.lasts_onward (Likeness.exact_obeys strict) (fun h => h) hknown honward
    exact hlasts.keeps
  · exact fun hvisits => (hstands hvisits).inPlace _
  · exact fun hvisits => hvisits.keeps hs (fun h => h.accepted) halike
  · exact fun hvisits => (hstands hvisits).super _
  · intro fuel n site f vs s₁ frame i cls home method hvisits hbound hrole
    have hgives : ∀ {k env s₂ completion s₃}, n = k + 1 →
        Calls k (.invoke site (.closure f) vs) s₁ (.execAll env f.decl.body) s₂ →
        Eval.execAll k env f.decl.body s₂ = .ok completion s₃ →
          ∃ s₄, Eval.invoke n site (.closure f) vs s₁ = .ok (.object i cls) s₄ := by
      rintro k env s₂ completion s₃ rfl hcalls hbody
      exact hcalls.initializer_gives hbound hrole (hstands hvisits) hbody
    refine ⟨fun {v s₂} hv => ?_, hgives⟩
    obtain ⟨k, env, s', completion, t, hn, hcalls, hbody⟩ := Eval.invoke_closure_inv hv
    obtain ⟨s₄, hgiven⟩ := hgives hn hcalls hbody
    cases hv.symm.trans hgiven
    rfl
  · exact fun hvisits hcalls hbody => hcalls.instance_gives (hstands hvisits) hbody

end

/-- A method that is overridden, fetched through `super` and kept for later. -/
def overriding : String :=
  "class A \x7b get() \x7b return this; \x7d \x7d
class B < A \x7b init(n) \x7b while (n) return; \x7d get() \x7b return super.get; \x7d \x7d
var later = B(\"x\").get();"

def overridden : Session :=
  leftBy ((Step.run overriding).take 40 (.start {} [] fun _ => 0))

/-- The value is a method of an instance. -/
def Value.isMethod : Value → Bool
  | .closure f => decide (f.role = .method)
  | _ => false

theorem History.methods_bound_overridden : ∃ known,
    History (.honest True) overridden known ∧
      (Step.run "print later();").Follows (.honest True) known ∧
      (Step.run "print later();").BindsMethods (.honest True) overridden known ∧
      ∃ f frame i cls home method, overridden.frames.find? Session.globals "later" = some (.closure f) ∧
        f.BoundTo overridden frame i cls home method := by
  have hstart : History (.honest True) (.start {} [] fun _ => 0) fun _ => False :=
    .start fun _ => nofun
  have hrun : (Step.run overriding).Follows (.honest True) fun _ => False := .run
  obtain ⟨known, hhistory⟩ := hstart.left hrun 40
  have hbound : (Step.run "print later();").BindsMethods (.honest True) overridden known :=
    hhistory.methods_bound .run
  refine ⟨known, hhistory, .run, hbound, ?_⟩
  have hlater : (overridden.frames.find? Session.globals "later").any Value.isMethod = true := by
    set_option maxRecDepth 3000 in
    rw [overridden, show overriding = String.ofList _ from rfl]
    simp -zeta only [Step.take, Eval.take, Eval.runProgram, compile, Scan.ofSource_ofList]
    decide +kernel
  obtain ⟨v, hlater, hmethod⟩ := (Option.any_eq_true _ _).mp hlater
  cases v with
  | closure f =>
      have hmem : ("later", .closure f) ∈ overridden.frames.bindings Session.globalFrame := by
        apply Bindings.mem_of_find?
        rw [← hlater, Frames.find?_globals]
      cases hbound.inPlace.frames hmem f rfl with
      | function hrole _ _ => simp [Value.isMethod, hrole] at hmethod
      | method _ hf => exact ⟨f, _, _, _, _, _, hlater, hf⟩
  | nil | bool | number | string | native | classObject | object => cases hmethod

end Lox
