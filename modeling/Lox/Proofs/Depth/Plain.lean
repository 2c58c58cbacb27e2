import Lox.Proofs.Host.Conversion
import Lox.Proofs.Preservation.Local
import Lox.Proofs.Simulation.Run

/-!
# Steps that the limit on calls is nothing to

Only calls look at the limit that the user sets.  All other steps of evaluation do the same under any
limit, and none of them is what a stack overflow comes from.
-/

namespace Lox

def Session.raised (limit : CallLimit) (s : Session) : Session :=
  { s with limits := { s.limits with calls := limit } }

def raisedEnd {α : Type} (limit : CallLimit) :
    EStateM.Result Interrupt Session α → EStateM.Result Interrupt Session α
  | .ok a s => .ok a (s.raised limit)
  | .error i s => .error i (s.raised limit)

/-- The end of a step that nests calls too deep. -/
def Overflows {α : Type} (site : Token) : EStateM.Result Interrupt Session α → Prop
  | .error i _ => i = .fault ⟨site, .stackOverflow⟩
  | .ok _ _ => False

namespace Eval

variable {α β : Type}

/-- A step that does not depend on the limit and never exceeds it. -/
class Plain (x : Eval α) : Prop where
  raised : ∀ limit s, x (s.raised limit) = raisedEnd limit (x s)
  shallow : ∀ site s, ¬ Overflows site (x s)

section

variable {x : Eval α} {f : α → Eval β}

theorem Plain.bind [hx : Plain x] (hf : ∀ a, Plain (f a)) : Plain (x >>= f) where
  raised limit s := by
    rw [eval_bind_apply, eval_bind_apply, hx.raised limit s]
    cases x s with
    | ok a s₁ => exact (hf a).raised limit s₁
    | error i s₁ => rfl
  shallow site s := by
    have hfirst := hx.shallow site s
    rw [eval_bind_apply]
    generalize x s = r at hfirst ⊢
    cases r with
    | ok a s₁ => exact (hf a).shallow site s₁
    | error i s₁ => exact hfirst

instance [Plain x] [hf : ∀ a, Plain (f a)] : Plain (x >>= f) :=
  .bind hf

end

theorem Plain.get_bind {f : Session → Eval β} (hf : ∀ s, Plain (f s))
    (hsame : ∀ limit s, f (s.raised limit) = f s) : Plain (get >>= f) where
  raised limit s := by
    rw [eval_get_bind_apply, eval_get_bind_apply, hsame]
    exact (hf s).raised limit s
  shallow site s := (hf s).shallow site s

theorem Plain.of_modifyGet {f : Session → α × Session}
    (h : ∀ limit s, f (s.raised limit) = ((f s).1, (f s).2.raised limit)) :
    Plain (modifyGet f : Eval α) where
  raised limit s := by
    change EStateM.Result.ok (f (s.raised limit)).1 (f (s.raised limit)).2 = _
    rw [h]
    rfl
  shallow _ _ h := h

theorem Plain.of_modify {f : Session → Session} (h : ∀ limit s, f (s.raised limit) = (f s).raised limit) :
    Plain (modify f : Eval Unit) where
  raised limit s := by
    change EStateM.Result.ok () (f (s.raised limit)) = _
    rw [h]
    rfl
  shallow _ _ h := h

instance (a : α) : Plain (pure a) :=
  ⟨fun _ _ => rfl, fun _ _ h => h⟩

instance (g : α → β) (x : Eval α) [hx : Plain x] : Plain (g <$> x) := by
  rw [map_eq_pure_bind]
  infer_instance

theorem plain_fault (t : Token) {f : Fault} (hf : f ≠ .stackOverflow) : Plain (fault t f : Eval α) :=
  ⟨fun _ _ => rfl, fun _ _ h => hf (congrArg RuntimeError.fault (Interrupt.fault.inj h))⟩

instance (cause : Stuck) : Plain (stuck cause : Eval α) :=
  ⟨fun _ _ => rfl, fun _ _ => nofun⟩

instance (e : HostError) : Plain (hostError e : Eval α) :=
  ⟨fun _ _ => rfl, fun _ _ => nofun⟩

instance : Plain (throw .outOfFuel : Eval α) :=
  ⟨fun _ _ => rfl, fun _ _ => nofun⟩

/-! ## Actions -/

theorem plain_operate (op : Token) {r : Except Fault α} (hr : r ≠ .error .stackOverflow) :
    Plain (operate op r) := by
  cases r with
  | ok v =>
      unfold operate
      infer_instance
  | error f =>
      unfold operate
      exact plain_fault op fun hf => hr (congrArg Except.error hf)

instance (op : Token) (v : Value) : Plain (operate op (applyUnary op v)) := by
  apply plain_operate
  unfold applyUnary
  grind

instance (op : Token) (v u : Value) : Plain (operate op (applyBinary op v u)) := by
  apply plain_operate
  unfold applyBinary add arithmetic
  grind

instance (r : Except AccessError α) : Plain (access r) := by
  cases r <;> unfold access <;> infer_instance

instance : Plain newObject :=
  .of_modifyGet fun _ _ => rfl

instance (env : Environment) : Plain (enter env) :=
  .of_modifyGet fun _ _ => rfl

instance (env : Environment) (name : String) (v : Value) : Plain (define env name v) :=
  .of_modify fun _ _ => rfl

instance (frame : FrameId) (name : String) (v : Value) : Plain (updateFrame frame name v) :=
  .of_modify fun _ _ => rfl

instance (line : String) : Plain (modify (Session.printLine line) : Eval Unit) :=
  .of_modify fun _ _ => rfl

instance (env : Environment) (name : Token) : Plain (walk env name) := by
  unfold walk
  refine .get_bind (fun s => ?_) fun _ _ => rfl
  split
  · infer_instance
  · exact plain_fault name nofun

instance (env : Environment) (name : Token) (v : Value) : Plain (walkAssign env name v) := by
  unfold walkAssign
  refine .get_bind (fun s => ?_) fun _ _ => rfl
  split
  · infer_instance
  · exact plain_fault name nofun

instance (env : Environment) (distance : Int) (name : String) : Plain (readAt env distance name) := by
  unfold readAt
  exact .get_bind (fun s => inferInstance) fun _ _ => rfl

instance (env : Environment) (distance : Int) (name : String) (v : Value) :
    Plain (writeAt env distance name v) := by
  unfold writeAt
  infer_instance

instance (env : Environment) (id : NodeId) (name : Token) : Plain (lookUp env id name) := by
  unfold lookUp
  refine .get_bind (fun s => ?_) fun _ _ => rfl
  split <;> infer_instance

instance (env : Environment) (id : NodeId) (name : Token) (v : Value) :
    Plain (assign env id name v) := by
  unfold assign
  refine .get_bind (fun s => ?_) fun _ _ => rfl
  split <;> infer_instance

/-! ## Objects -/

instance (env : Environment) (role : Role) (decl : FunDecl) : Plain (newClosure env role decl) := by
  unfold newClosure
  infer_instance

instance (method : Closure) (this : Value) : Plain (bindThis method this) := by
  unfold bindThis
  infer_instance

instance (cls : Class) : Plain (newInstance cls) :=
  .of_modifyGet fun _ _ => rfl

instance (id : InstanceId) (name : String) (v : Value) : Plain (setField id name v) :=
  .of_modify fun _ _ => rfl

instance (id : InstanceId) (cls : Class) (name : Token) : Plain (property id cls name) := by
  unfold property
  refine .get_bind (fun s => ?_) fun _ _ => rfl
  split
  · infer_instance
  · split
    · infer_instance
    · exact plain_fault name nofun

instance (env : Environment) (id : NodeId) (method : Token) : Plain (superMethod env id method) := by
  unfold superMethod
  refine .get_bind (fun s => ?_) fun _ _ => rfl
  split
  · infer_instance
  · refine .bind fun base => .bind fun this => ?_
    split
    · split
      · infer_instance
      · exact plain_fault method nofun
    · infer_instance

instance (env : Environment) (decls : List FunDecl) (methods : Bindings Closure) :
    Plain (newMethods env methods decls) := by
  induction decls generalizing methods with
  | nil =>
      unfold newMethods
      infer_instance
  | cons decl decls ih =>
      unfold newMethods
      exact .bind fun method => ih _

instance (env : Environment) (base : Option (NodeId × Token)) : Plain (superclass env base) := by
  unfold superclass
  split
  · infer_instance
  · refine .bind fun v => ?_
    split
    · infer_instance
    · exact plain_fault _ nofun

instance (env : Environment) (base : Option Class) : Plain (methodEnv env base) := by
  unfold methodEnv
  split <;> infer_instance

instance (env : Environment) (name : Token) (base : Option (NodeId × Token))
    (decls : List FunDecl) : Plain (declareClass env name base decls) := by
  unfold declareClass
  infer_instance

/-! ## Calls and exchange with the host -/

instance (env : Environment) (params : List Token) (arguments : List Value) :
    Plain (defineAll env params arguments) := by
  induction params generalizing arguments with
  | nil => cases arguments <;> unfold defineAll <;> infer_instance
  | cons param params ih => cases arguments <;> unfold defineAll <;> infer_instance

instance (f : Closure) (arguments : List Value) : Plain (Eval.open f arguments) := by
  unfold Eval.open
  infer_instance

instance (site : Token) (callee : Value) (count : Nat) : Plain (checkCall site callee count) := by
  unfold checkCall
  split
  · exact plain_fault site nofun
  · split
    · infer_instance
    · exact plain_fault site nofun

instance : Plain readClock :=
  .of_modifyGet fun _ _ => rfl

instance : Plain readLine := by
  have htake : Plain (modifyGet Session.takeLine : Eval (List Char)) :=
    .of_modifyGet fun _ _ => rfl
  unfold readLine
  infer_instance

instance (things : List HostForm) :
    Plain (modify fun s => { s with memory := things } : Eval Unit) :=
  .of_modify fun _ _ => rfl

instance (x : Option Float) : Plain (nearestNumber x) := by
  cases x <;> unfold nearestNumber <;> infer_instance

instance (arity : Nat) (body : List HostForm → HostAction) : Plain (hire arity body) :=
  .of_modifyGet fun _ _ => rfl

instance (o : HostObject) : Plain (toValue o) := by
  obtain ⟨f, -, h⟩ | ⟨n, -, h⟩ | ⟨arity, body, -, h⟩ | ⟨-, h⟩ := toValue_cases o <;>
    · rw [h]
      infer_instance

instance (callee : Value) (os : List HostObject) : Plain (hostArguments callee os) :=
  hostArguments_of_each (fun _ x => Plain x) (fun _ => inferInstance) (fun _ hf => .bind hf)
    (fun _ _ => inferInstance) (fun _ => inferInstance) callee

instance (error : Option RuntimeError) : Plain (conclude error) := by
  have hflag : Plain (modify fun s => { s with hadRuntimeError := error.isSome } : Eval Unit) :=
    .of_modify fun _ _ => rfl
  unfold conclude
  refine .bind fun _ => ?_
  split <;> infer_instance

instance (name : String) : Plain (getGlobal name) := by
  unfold getGlobal
  exact .get_bind (fun s => inferInstance) fun _ _ => rfl

instance (name : String) (o : HostObject) : Plain (setGlobal name o) := by
  unfold setGlobal
  infer_instance

end Eval

end Lox
