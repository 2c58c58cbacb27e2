import Lox.Proofs.Methods.Persistence

/-!
# Names that frames bind

Only a few steps bind a name in a frame that did not bind it before.  All others are tidy: they may
make new frames and change the values of variables, but the frames that there are bind the same names
as before.
-/

namespace Lox

/-- Frames bind the same names as before, except for those that they may come to bind. -/
structure Session.KeepsNames (may : FrameId → String → Prop) (s s' : Session) : Prop where
  size : s.frames.frames.size ≤ s'.frames.frames.size
  binds : ∀ {f x}, f < s.frames.frames.size → ¬ may f x →
    (s'.frames.bindings f).binds x = (s.frames.bindings f).binds x

def nowhere (_ : FrameId) (_ : String) : Prop :=
  False

namespace Session.KeepsNames

variable {may may' : FrameId → String → Prop} {s s' s'' : Session}

theorem of_frames (h : s'.frames = s.frames) : s.KeepsNames may s' where
  size := by rw [h]
  binds _ _ := by rw [h]

theorem refl (s : Session) : s.KeepsNames may s :=
  .of_frames rfl

theorem trans (h : s.KeepsNames may s') (h' : s'.KeepsNames may s'') : s.KeepsNames may s'' where
  size := Nat.le_trans h.size h'.size
  binds hf hmay := (h'.binds (Nat.lt_of_lt_of_le hf h.size) hmay).trans (h.binds hf hmay)

theorem mono (h : s.KeepsNames may s')
    (hmay : ∀ {f x}, f < s.frames.frames.size → may f x → may' f x) : s.KeepsNames may' s' where
  size := h.size
  binds hf hnot := h.binds hf fun hx => hnot (hmay hf hx)

theorem of_nowhere (h : s.KeepsNames nowhere s') : s.KeepsNames may s' :=
  h.mono fun _ => False.elim

/-- What is bound in new frames does not count. -/
theorem after_new (h : s.KeepsNames may s') (h' : s'.KeepsNames may' s'')
    (hnew : ∀ {f x}, may' f x → may f x ∨ s.frames.frames.size ≤ f) : s.KeepsNames may s'' where
  size := Nat.le_trans h.size h'.size
  binds hf hnot := (h'.binds (Nat.lt_of_lt_of_le hf h.size)
    fun hmay => absurd ((hnew hmay).resolve_left hnot) (Nat.not_le_of_lt hf)).trans (h.binds hf hnot)

theorem update (s : Session) {f : FrameId} {x : String} (v : Value)
    (h : (s.frames.bindings f).binds x = true ∨ may f x) :
    s.KeepsNames may { s with frames := s.frames.update f (·.set x v) } where
  size := by simp
  binds {g y} _ hmay := by
    rw [Frames.bindings_update]
    split
    · next hfg =>
        obtain rfl := hfg.1
        rw [Bindings.binds_set]
        by_cases hxy : x = y
        · subst hxy
          have hbound := h.resolve_right hmay
          simp [hbound]
        · simp [hxy]
    · rfl

theorem push (s : Session) : s.KeepsNames may { s with frames := s.frames.push } where
  size := by simp
  binds _ _ := by rw [Frames.bindings_push]

end Session.KeepsNames

namespace Eval

variable {α β : Type}

/-- A step after which the frames that there were bind the same names. -/
class Tidy (x : Eval α) : Prop where
  keeps : ∀ s : Session, s.KeepsNames nowhere (leftBy (x s))

theorem Tidy.of_frames {x : Eval α} (h : ∀ s, (leftBy (x s)).frames = s.frames) : Tidy x :=
  ⟨fun s => .of_frames (h s)⟩

/-- What is bound by two steps in a row, if one of them may bind more than the other one. -/
theorem keepsNames_bind {may : FrameId → String → Prop} {x : Eval α} {f : α → Eval β} {s : Session}
    (hx : s.KeepsNames may (leftBy (x s)))
    (hf : ∀ {a s₁}, x s = .ok a s₁ → s₁.KeepsNames may (leftBy (f a s₁))) :
    s.KeepsNames may (leftBy ((x >>= f) s)) := by
  rw [leftBy_bind]
  cases hxs : x s with
  | ok a s₁ =>
      rw [hxs] at hx
      exact hx.trans (hf hxs)
  | error i s₁ =>
      rw [hxs] at hx
      exact hx

section

variable {x : Eval α} {f : α → Eval β}

theorem Tidy.bind [hx : Tidy x] (hf : ∀ a, Tidy (f a)) : Tidy (x >>= f) :=
  ⟨fun s => keepsNames_bind (hx.keeps s) fun _ => (hf _).keeps _⟩

instance [Tidy x] [hf : ∀ a, Tidy (f a)] : Tidy (x >>= f) :=
  .bind hf

end

instance (a : α) : Tidy (pure a) :=
  .of_frames fun _ => rfl

instance : Tidy (get : Eval Session) :=
  .of_frames fun _ => rfl

instance (t : Token) (f : Fault) : Tidy (fault t f : Eval α) :=
  .of_frames fun _ => rfl

instance (cause : Stuck) : Tidy (stuck cause : Eval α) :=
  .of_frames fun _ => rfl

instance (e : HostError) : Tidy (hostError e : Eval α) :=
  .of_frames fun _ => rfl

instance (op : Token) (r : Except Fault α) : Tidy (operate op r) := by
  cases r <;> unfold operate <;> infer_instance

instance (r : Except AccessError α) : Tidy (access r) := by
  cases r <;> unfold access <;> infer_instance

/-! ## Variables -/

instance : Tidy newObject :=
  .of_frames fun _ => rfl

theorem keepsNames_enter {may : FrameId → String → Prop} {env : Environment}
    {f : Environment → Eval α} {s : Session}
    (hf : ∀ {inner s₁}, enter env s = .ok inner s₁ →
      s₁.KeepsNames (fun g x => may g x ∨ inner.head? = some g) (leftBy (f inner s₁))) :
    s.KeepsNames may (leftBy ((enter env >>= f) s)) :=
  (Session.KeepsNames.push s).after_new (hf rfl) fun hg =>
    hg.imp_right fun hhead => Nat.le_of_eq (Option.some.inj hhead)

theorem keepsNames_define {may : FrameId → String → Prop} {env : Environment} {x : String}
    (h : ∀ f, env.head? = some f → may f x) (v : Value) (s : Session) :
    s.KeepsNames may (leftBy (define env x v s)) := by
  cases env with
  | nil => exact .refl s
  | cons f env => exact .update s v (.inr (h f rfl))

theorem Frames.binds_of_home? {fs : Frames Value} {env : Environment} {x : String} {f : FrameId}
    (h : fs.home? env x = some f) : (fs.bindings f).binds x = true := by
  induction env with
  | nil => cases h
  | cons g env ih =>
      unfold Frames.home? at h
      split at h
      · next hbinds =>
          cases h
          exact hbinds
      · exact ih h

/-- A walk finds no frame but one that binds the name. -/
instance (env : Environment) (name : Token) (v : Value) : Tidy (walkAssign env name v) where
  keeps s := by
    unfold walkAssign
    rw [eval_get_bind_apply]
    cases hhome : s.frames.home? env name.lexeme with
    | some f => exact .update s v (.inl (Frames.binds_of_home? hhome))
    | none => exact .refl s

instance (env : Environment) (name : Token) : Tidy (walk env name) := by
  unfold walk
  refine .bind fun s => ?_
  split <;> infer_instance

instance (env : Environment) (distance : Int) (name : String) : Tidy (readAt env distance name) := by
  unfold readAt
  infer_instance

instance (env : Environment) (id : NodeId) (name : Token) : Tidy (lookUp env id name) := by
  unfold lookUp
  refine .bind fun s => ?_
  split <;> infer_instance

/-! ## Objects -/

instance (env : Environment) (role : Role) (decl : FunDecl) : Tidy (newClosure env role decl) := by
  unfold newClosure
  infer_instance

theorem tidy_mount (env : Environment) (x : String) (v : Value) {f : Environment → Eval α}
    (hf : ∀ inner, Tidy (f inner)) :
    Tidy (do let inner ← enter env; define inner x v; f inner) where
  keeps _ := keepsNames_enter fun _ =>
    keepsNames_bind (keepsNames_define (fun _ hg => .inr hg) v _) fun _ =>
      ((hf _).keeps _).of_nowhere

instance (method : Closure) (this : Value) : Tidy (bindThis method this) := by
  unfold bindThis
  exact tidy_mount _ _ _ fun inner => inferInstance

instance (cls : Class) : Tidy (newInstance cls) :=
  .of_frames fun _ => rfl

instance (id : InstanceId) (cls : Class) (name : Token) : Tidy (property id cls name) := by
  unfold property
  refine .bind fun s => ?_
  split
  · infer_instance
  · split
    · infer_instance
    · infer_instance

instance (env : Environment) (id : NodeId) (method : Token) : Tidy (superMethod env id method) := by
  unfold superMethod
  refine .bind fun s => ?_
  split
  · infer_instance
  · refine .bind fun base => .bind fun this => ?_
    split
    · split <;> infer_instance
    · infer_instance

instance (env : Environment) (decls : List FunDecl) (methods : Bindings Closure) :
    Tidy (newMethods env methods decls) := by
  induction decls generalizing methods with
  | nil =>
      unfold newMethods
      infer_instance
  | cons decl decls ih =>
      unfold newMethods
      exact .bind fun method => ih _

instance (env : Environment) (base : Option (NodeId × Token)) : Tidy (superclass env base) := by
  unfold superclass
  split
  · infer_instance
  · refine .bind fun v => ?_
    split <;> infer_instance

instance (env : Environment) (base : Option Class) : Tidy (methodEnv env base) := by
  unfold methodEnv
  split
  · infer_instance
  · exact tidy_mount _ _ _ fun inner => inferInstance

theorem keepsNames_declareClass {may : FrameId → String → Prop} {env : Environment} {name : Token}
    (h : ∀ f, env.head? = some f → may f name.lexeme) (base : Option (NodeId × Token))
    (decls : List FunDecl) (s : Session) :
    s.KeepsNames may (leftBy (declareClass env name base decls s)) := by
  unfold declareClass
  refine keepsNames_bind ((Tidy.keeps s).of_nowhere) fun _ => ?_
  refine keepsNames_bind (keepsNames_define h .nil _) fun _ => ?_
  exact (Tidy.keeps _).of_nowhere

/-! ## Calls and exchange with the host -/

theorem keepsNames_defineAll {may : FrameId → String → Prop} {env : Environment}
    (h : ∀ f x, env.head? = some f → may f x) (params : List Token) (arguments : List Value)
    (s : Session) : s.KeepsNames may (leftBy (defineAll env params arguments s)) := by
  induction params generalizing arguments s with
  | nil => cases arguments <;> exact .refl s
  | cons param params ih =>
      cases arguments with
      | nil => exact .refl s
      | cons v vs => exact keepsNames_bind (keepsNames_define (fun f => h f _) v s) fun _ => ih vs _

/-- Parameters are bound in a new frame. -/
instance (f : Closure) (arguments : List Value) : Tidy (Eval.open f arguments) where
  keeps _ := keepsNames_enter fun _ =>
    keepsNames_bind (keepsNames_defineAll (fun _ _ hg => .inr hg) _ _ _) fun _ => .refl _

theorem keepsNames_nested {may : FrameId → String → Prop} {site : Token} {x : Eval α} {s : Session}
    (h : s.deeper.KeepsNames may (leftBy (x s.deeper))) :
    s.KeepsNames may (leftBy (nested site x s)) := by
  by_cases hroom : s.HasRoom
  · rw [nested_of_room hroom]
    generalize x s.deeper = r at h ⊢
    cases r <;> exact ⟨h.size, h.binds⟩
  · obtain ⟨i, hfull⟩ := nested_of_not_room hroom site x
    rw [hfull]
    exact .refl s

instance : Tidy readClock :=
  .of_frames fun _ => rfl

instance : Tidy readLine :=
  .of_frames fun _ => rfl

instance (x : Option Float) : Tidy (nearestNumber x) := by
  cases x <;> unfold nearestNumber <;> infer_instance

instance (o : HostObject) : Tidy (toValue o) := by
  obtain ⟨f, -, h⟩ | ⟨n, -, h⟩ | ⟨arity, body, -, h⟩ | ⟨-, h⟩ := toValue_cases o <;> rw [h]
  · infer_instance
  · infer_instance
  · exact .of_frames fun _ => rfl
  · infer_instance

instance (name : String) : Tidy (getGlobal name) := by
  unfold getGlobal
  infer_instance

instance (callee : Value) (os : List HostObject) : Tidy (hostArguments callee os) :=
  hostArguments_of_each (fun _ x => Tidy x) (fun _ => inferInstance) (fun _ hf => .bind hf)
    (fun _ _ => inferInstance) (fun _ => inferInstance) callee

end Eval

end Lox
