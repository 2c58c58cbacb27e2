import Lox.Proofs.Simulation.Call

/-!
# Steps on variables and objects

Most steps of evaluation look at nothing but the variables, the fields, the identities and the
distances of references.  They do the same whatever the rest of the session is, and leave it alone.
They may make new frames, but never take one away.
-/

namespace Lox

/-- The session in which a step leaves off. -/
def leftBy {α : Type} : EStateM.Result Interrupt Session α → Session
  | .ok _ s | .error _ s => s

theorem leftBy_map {α β : Type} (g : α → β) (x : Eval α) (s : Session) :
    leftBy ((g <$> x) s) = leftBy (x s) := by
  simp only [Functor.map, EStateM.map]
  cases x s <;> rfl

def endIn {α : Type} (g : Session → Session) :
    EStateM.Result Interrupt Session α → EStateM.Result Interrupt Session α
  | .ok a s => .ok a (g s)
  | .error i s => .error i (g s)

theorem leftBy_endIn {α : Type} (g : Session → Session)
    (r : EStateM.Result Interrupt Session α) : leftBy (endIn g r) = g (leftBy r) := by
  cases r <;> rfl

def Session.storing (s : Session) (frames : Frames Value) (fields : Array (Bindings Value))
    (nextObject : ObjectId) : Session :=
  { s with frames := frames, fields := fields, nextObject := nextObject }

/-- The variables, fields, identities and distances of a session, and all the rest of another one. -/
def Session.within (s rest : Session) : Session :=
  { rest with frames := s.frames, fields := s.fields, nextObject := s.nextObject, hops := s.hops }

/-- A session does not have fewer frames than another one. -/
def Session.KeepsFrames (s s' : Session) : Prop :=
  s.frames.frames.size ≤ s'.frames.frames.size

theorem Frames.size_define {α : Type} (fs : Frames α) (env : Environment) (name : String)
    (value : α) : (fs.define env name value).frames.size = fs.frames.size := by
  cases env with
  | nil => rfl
  | cons frame env => exact Frames.size_update fs frame _

namespace Eval

variable {α β : Type}

/-- A step on variables and objects alone.  It always comes to an end. -/
class Local (x : Eval α) : Prop where
  apply : ∀ s rest, x (s.within rest) = endIn (·.within rest) (x s)
  hops : ∀ s, (leftBy (x s)).hops = s.hops
  frames : ∀ s : Session, s.KeepsFrames (leftBy (x s))
  ends : ∀ s s', x s ≠ .error .outOfFuel s'

/-- Nothing but variables, fields and identities is changed. -/
theorem Local.leftBy_eq (x : Eval α) [hx : Local x] (s : Session) :
    ∃ frames fields nextObject, s.frames.frames.size ≤ frames.frames.size ∧
      leftBy (x s) = s.storing frames fields nextObject := by
  have hleft : leftBy (x s) = (leftBy (x s)).within s := by
    conv_lhs => rw [show x s = endIn (·.within s) (x s) from hx.apply s s]
    exact leftBy_endIn _ _
  refine ⟨_, (leftBy (x s)).fields, (leftBy (x s)).nextObject, hx.frames s, ?_⟩
  rw [Session.within, hx.hops s] at hleft
  exact hleft

section

variable {x : Eval α} {f : α → Eval β}

theorem Local.bind [hx : Local x] (hf : ∀ a, Local (f a)) : Local (x >>= f) where
  apply s rest := by
    rw [eval_bind_apply, eval_bind_apply, hx.apply s rest]
    cases x s with
    | ok a s₁ => exact (hf a).apply s₁ rest
    | error i s₁ => rfl
  hops s := by
    have hfirst := hx.hops s
    rw [eval_bind_apply]
    generalize x s = r at hfirst ⊢
    cases r with
    | ok a s₁ => exact ((hf a).hops s₁).trans hfirst
    | error i s₁ => exact hfirst
  frames s := by
    have hfirst := hx.frames s
    rw [eval_bind_apply]
    generalize x s = r at hfirst ⊢
    cases r with
    | ok a s₁ => exact Nat.le_trans hfirst ((hf a).frames s₁)
    | error i s₁ => exact hfirst
  ends s s' := by
    have hfirst := hx.ends s s'
    rw [eval_bind_apply]
    generalize x s = r at hfirst ⊢
    cases r with
    | ok a s₁ => exact (hf a).ends s₁ s'
    | error i s₁ =>
        rintro ⟨⟩
        exact hfirst rfl

instance [Local x] [hf : ∀ a, Local (f a)] : Local (x >>= f) :=
  .bind hf

end

theorem Local.get_bind {f : Session → Eval β} (hf : ∀ s, Local (f s))
    (hsame : ∀ s rest, f (s.within rest) = f s) : Local (get >>= f) where
  apply s rest := by
    rw [eval_get_bind_apply, eval_get_bind_apply, hsame]
    exact (hf s).apply s rest
  hops s := (hf s).hops s
  frames s := (hf s).frames s
  ends s := (hf s).ends s

theorem Local.of_modifyGet {f : Session → α × Session}
    (happly : ∀ s rest, f (s.within rest) = ((f s).1, (f s).2.within rest))
    (hhops : ∀ s, (f s).2.hops = s.hops) (hframes : ∀ s : Session, s.KeepsFrames (f s).2) :
    Local (modifyGet f : Eval α) where
  apply s rest := by
    change EStateM.Result.ok (f (s.within rest)).1 (f (s.within rest)).2 = _
    rw [happly]
    rfl
  hops := hhops
  frames := hframes
  ends _ _ := nofun

instance (a : α) : Local (pure a) :=
  ⟨fun _ _ => rfl, fun _ => rfl, fun _ => Nat.le_refl _, fun _ _ => nofun⟩

theorem Local.throw {i : Interrupt} (hi : i ≠ .outOfFuel) : Local (throw i : Eval α) :=
  ⟨fun _ _ => rfl, fun _ => rfl, fun _ => Nat.le_refl _, fun _ _ h => hi (by cases h; rfl)⟩

instance (g : α → β) (x : Eval α) [Local x] : Local (g <$> x) := by
  rw [map_eq_pure_bind]
  infer_instance

instance (t : Token) (f : Fault) : Local (fault t f : Eval α) :=
  .throw nofun

instance (cause : Stuck) : Local (stuck cause : Eval α) :=
  .throw nofun

instance (e : HostError) : Local (hostError e : Eval α) :=
  .throw nofun

instance (op : Token) (r : Except Fault α) : Local (operate op r) := by
  cases r <;> unfold operate <;> infer_instance

instance (r : Except AccessError α) : Local (access r) := by
  cases r <;> unfold access <;> infer_instance

/-! ## Variables -/

instance : Local newObject :=
  .of_modifyGet (fun _ _ => rfl) (fun _ => rfl) fun _ => Nat.le_refl _

instance (env : Environment) : Local (enter env) :=
  .of_modifyGet (fun _ _ => rfl) (fun _ => rfl) fun s =>
    Nat.le_trans (Nat.le_succ _) (Nat.le_of_eq (Frames.size_push s.frames).symm)

instance (env : Environment) (name : String) (v : Value) : Local (define env name v) :=
  .of_modifyGet (fun _ _ => rfl) (fun _ => rfl) fun s =>
    Nat.le_of_eq (Frames.size_define s.frames env name v).symm

instance (frame : FrameId) (name : String) (v : Value) : Local (updateFrame frame name v) :=
  .of_modifyGet (fun _ _ => rfl) (fun _ => rfl) fun s =>
    Nat.le_of_eq (Frames.size_update s.frames frame _).symm

instance (env : Environment) (name : Token) : Local (walk env name) := by
  unfold walk
  refine .get_bind (fun s => ?_) fun _ _ => rfl
  split <;> infer_instance

instance (env : Environment) (name : Token) (v : Value) : Local (walkAssign env name v) := by
  unfold walkAssign
  refine .get_bind (fun s => ?_) fun _ _ => rfl
  split <;> infer_instance

instance (env : Environment) (distance : Int) (name : String) : Local (readAt env distance name) := by
  unfold readAt
  exact .get_bind (fun s => inferInstance) fun _ _ => rfl

instance (env : Environment) (distance : Int) (name : String) (v : Value) :
    Local (writeAt env distance name v) := by
  unfold writeAt
  infer_instance

instance (env : Environment) (id : NodeId) (name : Token) : Local (lookUp env id name) := by
  unfold lookUp
  refine .get_bind (fun s => ?_) fun _ _ => rfl
  split <;> infer_instance

instance (env : Environment) (id : NodeId) (name : Token) (v : Value) :
    Local (assign env id name v) := by
  unfold assign
  refine .get_bind (fun s => ?_) fun _ _ => rfl
  split <;> infer_instance

/-! ## Objects -/

instance (env : Environment) (role : Role) (decl : FunDecl) : Local (newClosure env role decl) := by
  unfold newClosure
  infer_instance

instance (method : Closure) (this : Value) : Local (bindThis method this) := by
  unfold bindThis
  infer_instance

instance (cls : Class) : Local (newInstance cls) :=
  .of_modifyGet (fun _ _ => rfl) (fun _ => rfl) fun _ => Nat.le_refl _

instance (id : InstanceId) (name : String) (v : Value) : Local (setField id name v) :=
  .of_modifyGet (fun _ _ => rfl) (fun _ => rfl) fun _ => Nat.le_refl _

instance (id : InstanceId) (cls : Class) (name : Token) : Local (property id cls name) := by
  unfold property
  refine .get_bind (fun s => ?_) fun _ _ => rfl
  split
  · infer_instance
  · split <;> infer_instance

instance (env : Environment) (id : NodeId) (method : Token) : Local (superMethod env id method) := by
  unfold superMethod
  refine .get_bind (fun s => ?_) fun _ _ => rfl
  split
  · infer_instance
  · refine .bind fun base => .bind fun this => ?_
    split
    · split <;> infer_instance
    · infer_instance

instance (env : Environment) (decls : List FunDecl) (methods : Bindings Closure) :
    Local (newMethods env methods decls) := by
  induction decls generalizing methods with
  | nil =>
      unfold newMethods
      infer_instance
  | cons decl decls ih =>
      unfold newMethods
      exact .bind fun method => ih _

instance (env : Environment) (base : Option (NodeId × Token)) : Local (superclass env base) := by
  unfold superclass
  split
  · infer_instance
  · refine .bind fun v => ?_
    split <;> infer_instance

instance (env : Environment) (base : Option Class) : Local (methodEnv env base) := by
  unfold methodEnv
  split <;> infer_instance

instance (env : Environment) (name : Token) (base : Option (NodeId × Token))
    (decls : List FunDecl) : Local (declareClass env name base decls) := by
  unfold declareClass
  infer_instance

/-! ## Calls -/

instance (env : Environment) (params : List Token) (arguments : List Value) :
    Local (defineAll env params arguments) := by
  induction params generalizing arguments with
  | nil => cases arguments <;> unfold defineAll <;> infer_instance
  | cons param params ih => cases arguments <;> unfold defineAll <;> infer_instance

instance (f : Closure) (arguments : List Value) : Local (Eval.open f arguments) := by
  unfold Eval.open
  infer_instance

instance (site : Token) (callee : Value) (count : Nat) : Local (checkCall site callee count) := by
  unfold checkCall
  split
  · infer_instance
  · split <;> infer_instance

instance (x : Option Float) : Local (nearestNumber x) := by
  cases x <;> unfold nearestNumber <;> infer_instance

instance (name : String) : Local (getGlobal name) := by
  unfold getGlobal
  exact .get_bind (fun s => inferInstance) fun _ _ => rfl

/-! ## Values for things of the host -/

section

variable (P : ∀ ⦃α : Type⦄, Eval α → Prop) (hpure : ∀ {α : Type} (a : α), P (pure a : Eval α))
  (hbind : ∀ {α β : Type} {x : Eval α} {f : α → Eval β}, P x → (∀ a, P (f a)) → P (x >>= f))
  {os : List HostObject} (hvalue : ∀ o ∈ os, P (toValue o))

include hpure hbind hvalue

theorem toValues_of_each : P (toValues os) := by
  induction os with
  | nil =>
      unfold toValues
      exact hpure []
  | cons o os ih =>
      unfold toValues
      exact hbind (hvalue o List.mem_cons_self) fun v =>
        hbind (ih fun o ho => hvalue o (List.mem_cons_of_mem _ ho)) fun vs => hpure (v :: vs)

theorem hostArguments_of_each (herror : ∀ {α : Type} (e : HostError), P (hostError e : Eval α))
    (callee : Value) : P (hostArguments callee os) := by
  unfold hostArguments
  split
  · exact herror _
  · split
    · exact toValues_of_each P hpure hbind hvalue
    · exact herror _

end

end Eval

end Lox
