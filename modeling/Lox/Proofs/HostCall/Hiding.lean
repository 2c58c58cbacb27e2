import Lox.Proofs.Soundness.Visit

/-!
# Global variables that nobody mentions

A step overlooks global variables of some names if it does the same whether they are bound or not, and
leaves them alone.  All steps that evaluation is made of do, except those that look up, change or declare
a variable of one of the names.
-/

namespace Lox

/-! ## Sessions without some global variables -/

def Bindings.without {α : Type} (names : List String) (bindings : Bindings α) : Bindings α :=
  bindings.filter fun entry => decide (entry.1 ∉ names)

def Frames.without {α : Type} (names : List String) (fs : Frames α) : Frames α :=
  fs.update Session.globalFrame (·.without names)

def Session.without (names : List String) (s : Session) : Session :=
  { s with frames := s.frames.without names }

/-- The second session is the first one, but may have global variables of some names besides. -/
structure Session.Hides (names : List String) (s t : Session) : Prop where
  globals : 0 < t.frames.frames.size
  without : t.without names = s

variable {names : List String} {name : String}

namespace Bindings

variable {α : Type}

theorem find?_without (bindings : Bindings α) (hname : name ∉ names) :
    (bindings.without names).find? name = bindings.find? name := by
  induction bindings with
  | nil => rfl
  | cons entry bindings ih =>
      obtain ⟨key, value⟩ := entry
      unfold without at ih ⊢
      rw [List.filter_cons]
      split
      · simp only [find?, ih]
      · next hkey =>
          have hne : key ≠ name := by
            rintro rfl
            simp [hname] at hkey
          rw [ih, find?, if_neg hne]

theorem without_set (bindings : Bindings α) (names : List String) (name : String) (value : α) :
    (bindings.set name value).without names =
      if name ∈ names then bindings.without names else (bindings.without names).set name value := by
  induction bindings with
  | nil => by_cases hname : name ∈ names <;> simp [without, set, hname]
  | cons entry bindings ih =>
      obtain ⟨key, old⟩ := entry
      by_cases hkey : key = name
      · subst hkey
        by_cases hname : key ∈ names <;> simp [without, set, hname]
      · have hset : ∀ b : Bindings α, set ((key, old) :: b) name value = (key, old) :: set b name value :=
          fun _ => if_neg hkey
        unfold without at ih ⊢
        rw [hset, List.filter_cons, List.filter_cons, ih]
        split_ifs <;> simp only [hset]

theorem without_eq_self {bindings : Bindings α} (h : ∀ name ∈ names, bindings.find? name = none) :
    bindings.without names = bindings := by
  induction bindings with
  | nil => rfl
  | cons entry bindings ih =>
      obtain ⟨key, value⟩ := entry
      have hne : ∀ name ∈ names, key ≠ name := by
        rintro name hname rfl
        have hnone := h key hname
        rw [find?, if_pos rfl] at hnone
        cases hnone
      have hrest := ih fun name hname => by
        have hnone := h name hname
        rwa [find?, if_neg (hne name hname)] at hnone
      unfold without at hrest ⊢
      have hkey : key ∉ names := fun hkey => hne key hkey rfl
      rw [List.filter_cons, if_pos (decide_eq_true hkey), hrest]

end Bindings

namespace Frames

variable {α : Type} (fs : Frames α)

theorem size_without (names : List String) : (fs.without names).frames.size = fs.frames.size :=
  size_update fs _ _

theorem bindings_without (names : List String) (frame : FrameId) :
    (fs.without names).bindings frame =
      if frame = Session.globalFrame then (fs.bindings frame).without names else fs.bindings frame := by
  unfold without
  rw [bindings_update]
  by_cases hframe : frame = Session.globalFrame
  · subst hframe
    by_cases hsize : Session.globalFrame < fs.frames.size
    · rw [if_pos ⟨rfl, hsize⟩, if_pos rfl]
    · rw [if_neg fun h => hsize h.2, if_pos rfl]
      have hnone : fs.bindings Session.globalFrame = [] := by
        unfold bindings
        rw [Array.getD_eq_getD_getElem?, Array.getElem?_eq_none (Nat.le_of_not_lt hsize)]
        rfl
      rw [hnone]
      rfl
  · rw [if_neg fun h => hframe h.1.symm, if_neg hframe]

theorem find?_bindings_without (frame : FrameId) (hname : name ∉ names) :
    ((fs.without names).bindings frame).find? name = (fs.bindings frame).find? name := by
  rw [bindings_without]
  split
  · exact Bindings.find?_without _ hname
  · rfl

theorem push_without (names : List String) : (fs.without names).push = fs.push.without names := by
  unfold without push update
  refine congrArg Frames.mk (Array.ext (by simp) fun i hi hi' => ?_)
  simp only [Array.getElem_push, Array.getElem_modify, Array.size_modify]
  split_ifs <;> rfl

theorem update_without {frame : FrameId} (h : frame ≠ Session.globalFrame ∨ name ∉ names) (value : α) :
    (fs.without names).update frame (·.set name value) =
      (fs.update frame (·.set name value)).without names := by
  unfold without update
  refine congrArg Frames.mk (Array.ext (by simp) fun i hi hi' => ?_)
  simp only [Array.getElem_modify]
  split_ifs with hframe hglobal
  · have hname : name ∉ names := h.resolve_left (not_not_intro (hframe.trans hglobal.symm))
    rw [Bindings.without_set, if_neg hname]
  all_goals rfl

theorem find?_without (hname : name ∉ names) (env : Environment) :
    (fs.without names).find? env name = fs.find? env name := by
  induction env with
  | nil => rfl
  | cons frame env ih => rw [find?, find?, find?_bindings_without fs frame hname, ih]

theorem home?_without (hname : name ∉ names) (env : Environment) :
    (fs.without names).home? env name = fs.home? env name := by
  induction env with
  | nil => rfl
  | cons frame env ih =>
      rw [home?, home?, Bindings.binds, find?_bindings_without fs frame hname, ih, Bindings.binds]

theorem getAt_without (hname : name ∉ names) (env : Environment) (distance : Int) :
    (fs.without names).getAt env distance name = fs.getAt env distance name := by
  unfold getAt
  cases frameAt env distance with
  | error e => rfl
  | ok frame =>
      dsimp only
      rw [find?_bindings_without fs frame hname]

theorem define_without {env : Environment} (h : env.head? ≠ some Session.globalFrame ∨ name ∉ names)
    (value : α) : (fs.without names).define env name value = (fs.define env name value).without names := by
  cases env with
  | nil => rfl
  | cons frame env => exact fs.update_without (h.imp_left fun hne heq => hne (congrArg some heq)) value

theorem without_define_globals (hname : name ∈ names) (value : α) :
    (fs.define Session.globals name value).without names = fs.without names := by
  unfold without Session.globals define update
  refine congrArg Frames.mk (Array.ext (by simp) fun i hi hi' => ?_)
  simp only [Array.getElem_modify]
  split_ifs
  · rw [Bindings.without_set, if_pos hname]
  · rfl

theorem without_eq_self (h : ∀ name ∈ names, fs.find? Session.globals name = none) :
    fs.without names = fs := by
  unfold without update
  refine congrArg Frames.mk (Array.ext (by simp) fun i hi hi' => ?_)
  simp only [Array.getElem_modify]
  split_ifs with hglobal
  · subst hglobal
    refine Bindings.without_eq_self fun name hname => ?_
    have hnone := h name hname
    rw [find?_globals, bindings, Array.getD_eq_getD_getElem?, Array.getElem?_eq_getElem hi'] at hnone
    exact hnone
  · rfl

end Frames

/-! ## Steps -/

/-- Two ends of a step that are the same but for the variables. -/
inductive Session.HidesIn (names : List String) {α : Type} : EStateM.Result Interrupt Session α →
    EStateM.Result Interrupt Session α → Prop where
  | ok : Session.Hides names s t → Session.HidesIn names (.ok a s) (.ok a t)
  | error : Session.Hides names s t → Session.HidesIn names (.error i s) (.error i t)

namespace Eval

variable {α β : Type}

/-- A step that does in the session what it does if there are global variables of some names besides. -/
def Overlooks (names : List String) (x : Eval α) (s : Session) : Prop :=
  ∀ t, Session.Hides names s t → Session.HidesIn names (x s) (x t)

namespace Overlooks

variable {s : Session} {x : Eval α} {f : α → Eval β}

theorem pure (a : α) : Overlooks names (pure a) s :=
  fun _ ht => .ok ht

theorem throw (i : Interrupt) : Overlooks names (throw i : Eval α) s :=
  fun _ ht => .error ht

theorem bind (hx : Overlooks names x s) (hf : ∀ a s₁, x s = .ok a s₁ → Overlooks names (f a) s₁) :
    Overlooks names (x >>= f) s := by
  intro t ht
  have hfirst := hx t ht
  rw [eval_bind_apply, eval_bind_apply]
  generalize x t = r at hfirst ⊢
  cases hs : x s with
  | ok a s₁ =>
      rw [hs] at hfirst
      cases hfirst with
      | ok ht₁ => exact hf a s₁ hs _ ht₁
  | error i s₁ =>
      rw [hs] at hfirst
      cases hfirst with
      | error ht₁ => exact .error ht₁

theorem get_bind {f : Session → Eval β} (hf : Overlooks names (f s) s)
    (hsame : ∀ t, Session.Hides names s t → f t = f s) : Overlooks names (get >>= f) s := by
  intro t ht
  rw [eval_get_bind_apply, eval_get_bind_apply, hsame t ht]
  exact hf t ht

theorem of_modifyGet {f : Session → α × Session}
    (h : ∀ t : Session, f (t.without names) = ((f t).1, (f t).2.without names))
    (hsize : ∀ t : Session, t.KeepsFrames (f t).2) : Overlooks names (modifyGet f : Eval α) s := by
  intro t ht
  obtain ⟨hglobals, rfl⟩ := ht
  change Session.HidesIn names (.ok (f (t.without names)).1 (f (t.without names)).2) (.ok (f t).1 (f t).2)
  rw [h t]
  exact .ok ⟨Nat.lt_of_lt_of_le hglobals (hsize t), rfl⟩

theorem of_modify {f : Session → Session} (h : ∀ t : Session, f (t.without names) = (f t).without names)
    (hsize : ∀ t : Session, t.KeepsFrames (f t)) : Overlooks names (modify f : Eval Unit) s :=
  of_modifyGet (fun t => by rw [h]) hsize

theorem fault (t : Token) (f : Fault) : Overlooks names (fault t f : Eval α) s :=
  throw _

theorem stuck (cause : Stuck) : Overlooks names (stuck cause : Eval α) s :=
  throw _

theorem hostError (e : HostError) : Overlooks names (hostError e : Eval α) s :=
  throw _

theorem operate (op : Token) (r : Except Fault α) : Overlooks names (operate op r) s := by
  cases r with
  | ok value => exact .pure value
  | error f => exact .fault op f

theorem access (r : Except AccessError α) : Overlooks names (access r) s := by
  cases r with
  | ok value => exact .pure value
  | error e => exact .stuck _

/-- The frame of the global variables is there whenever variables can be hidden. -/
theorem of_globals (h : 0 < s.frames.frames.size → Overlooks names x s) : Overlooks names x s := by
  intro t ht
  refine h ?_ t ht
  obtain ⟨hglobals, rfl⟩ := ht
  exact Nat.lt_of_lt_of_eq hglobals (Frames.size_without t.frames names).symm

/-! ## Variables -/

section

variable {env : Environment}

theorem newObject : Overlooks names newObject s :=
  of_modifyGet (fun _ => rfl) fun _ => Nat.le_refl _

theorem enter (env : Environment) : Overlooks names (enter env) s := by
  refine of_modifyGet (fun t => ?_) fun t => ?_
  · simp only [Session.without, Frames.inner, Frames.size_without, Frames.push_without]
  · exact Nat.le_trans (Nat.le_succ _) (Nat.le_of_eq (Frames.size_push t.frames).symm)

theorem define (h : env.head? ≠ some Session.globalFrame ∨ name ∉ names) (v : Value) :
    Overlooks names (define env name v) s := by
  refine of_modify (fun t => ?_) fun t => Nat.le_of_eq (Frames.size_define t.frames env name v).symm
  simp only [Session.without, Frames.define_without t.frames h]

theorem updateFrame (hname : name ∉ names) (frame : FrameId) (v : Value) :
    Overlooks names (updateFrame frame name v) s := by
  refine of_modify (fun t => ?_) fun t => Nat.le_of_eq (Frames.size_update t.frames frame _).symm
  simp only [Session.without, Frames.update_without t.frames (.inr hname)]

theorem walk {name : Token} (hname : name.lexeme ∉ names) (env : Environment) :
    Overlooks names (walk env name) s := by
  unfold Eval.walk
  refine get_bind ?_ ?_
  · split
    · exact pure _
    · exact fault _ _
  · rintro t ⟨-, rfl⟩
    have hfind : (t.without names).frames.find? env name.lexeme = t.frames.find? env name.lexeme :=
      t.frames.find?_without hname env
    rw [hfind]

theorem walkAssign {name : Token} (hname : name.lexeme ∉ names) (env : Environment) (v : Value) :
    Overlooks names (walkAssign env name v) s := by
  unfold Eval.walkAssign
  refine get_bind ?_ ?_
  · split
    · exact updateFrame hname _ v
    · exact fault _ _
  · rintro t ⟨-, rfl⟩
    have hhome : (t.without names).frames.home? env name.lexeme = t.frames.home? env name.lexeme :=
      t.frames.home?_without hname env
    rw [hhome]

theorem readAt (hname : name ∉ names) (env : Environment) (distance : Int) :
    Overlooks names (readAt env distance name) s := by
  unfold Eval.readAt
  refine get_bind (access _) ?_
  rintro t ⟨-, rfl⟩
  exact congrArg Eval.access (t.frames.getAt_without hname env distance).symm

theorem writeAt (hname : name ∉ names) (env : Environment) (distance : Int) (v : Value) :
    Overlooks names (writeAt env distance name v) s :=
  (access _).bind fun frame _ _ => updateFrame hname frame v

theorem lookUp {name : Token} (hname : name.lexeme ∉ names) (env : Environment) (id : NodeId) :
    Overlooks names (lookUp env id name) s := by
  unfold Eval.lookUp
  refine get_bind ?_ ?_
  · split
    · exact readAt hname env _
    · exact walk hname _
  · rintro t ⟨-, rfl⟩
    rfl

theorem assign {name : Token} (hname : name.lexeme ∉ names) (env : Environment) (id : NodeId)
    (v : Value) : Overlooks names (assign env id name v) s := by
  unfold Eval.assign
  refine get_bind ?_ ?_
  · split
    · exact writeAt hname env _ v
    · exact walkAssign hname _ v
  · rintro t ⟨-, rfl⟩
    rfl

theorem defineAll (henv : env.head? ≠ some Session.globalFrame) (params : List Token)
    (arguments : List Value) : Overlooks names (defineAll env params arguments) s := by
  induction params generalizing arguments s with
  | nil =>
      cases arguments with
      | nil => exact pure _
      | cons _ _ => exact stuck _
  | cons param params ih =>
      cases arguments with
      | nil => exact stuck _
      | cons argument arguments => exact (define (.inl henv) argument).bind fun _ _ _ => ih arguments

end

/-! ## Objects -/

section

variable (hthis : "this" ∉ names) (hsuper : "super" ∉ names) {env : Environment}

theorem newClosure (env : Environment) (role : Role) (decl : FunDecl) :
    Overlooks names (newClosure env role decl) s :=
  newObject.bind fun _ _ _ => pure _

include hthis in
theorem bindThis (method : Closure) (this : Value) : Overlooks names (bindThis method this) s :=
  (enter method.env).bind fun _ _ _ => (define (.inr hthis) this).bind fun _ _ _ => newClosure _ _ _

theorem newInstance (cls : Class) : Overlooks names (newInstance cls) s :=
  of_modifyGet (fun _ => rfl) fun _ => Nat.le_refl _

theorem setField (id : InstanceId) (field : String) (v : Value) :
    Overlooks names (setField id field v) s :=
  of_modify (fun _ => rfl) fun _ => Nat.le_refl _

include hthis in
theorem property (id : InstanceId) (cls : Class) (field : Token) :
    Overlooks names (property id cls field) s := by
  unfold Eval.property
  refine get_bind ?_ ?_
  · split
    · exact pure _
    · split
      · exact (bindThis hthis _ _).bind fun _ _ _ => pure _
      · exact fault _ _
  · rintro t ⟨-, rfl⟩
    rfl

include hthis hsuper in
theorem superMethod (env : Environment) (id : NodeId) (method : Token) :
    Overlooks names (superMethod env id method) s := by
  unfold Eval.superMethod
  refine get_bind ?_ ?_
  · split
    · exact stuck _
    · refine (readAt hsuper env _).bind fun superclass _ _ => (readAt hthis env _).bind fun this _ _ => ?_
      split
      · split
        · exact (bindThis hthis _ _).bind fun _ _ _ => pure _
        · exact fault _ _
      · exact stuck _
  · rintro t ⟨-, rfl⟩
    rfl

theorem newMethods (env : Environment) (methods : Bindings Closure) (decls : List FunDecl) :
    Overlooks names (newMethods env methods decls) s := by
  induction decls generalizing methods s with
  | nil => exact pure _
  | cons decl decls ih => exact (newClosure env _ decl).bind fun _ _ _ => ih _

theorem superclass (env : Environment) {base : Option (NodeId × Token)}
    (hbase : ∀ entry ∈ base, entry.2.lexeme ∉ names) : Overlooks names (superclass env base) s := by
  cases base with
  | none => exact pure _
  | some entry =>
      obtain ⟨id, name⟩ := entry
      refine (lookUp (hbase (id, name) rfl) env id).bind fun v _ _ => ?_
      split
      · exact pure _
      · exact fault _ _

include hsuper in
theorem methodEnv (env : Environment) (base : Option Class) : Overlooks names (methodEnv env base) s := by
  cases base with
  | none => exact pure _
  | some cls =>
      exact (enter env).bind fun _ _ _ => (define (.inr hsuper) _).bind fun _ _ _ => pure _

include hsuper in
theorem declareClass (env : Environment) {name : Token} (hname : name.lexeme ∉ names)
    {base : Option (NodeId × Token)} (hbase : ∀ entry ∈ base, entry.2.lexeme ∉ names)
    (methods : List FunDecl) : Overlooks names (declareClass env name base methods) s :=
  (superclass env hbase).bind fun base _ _ =>
    (define (.inr hname) .nil).bind fun _ _ _ =>
      (methodEnv hsuper env base).bind fun inner _ _ =>
        (newMethods inner [] methods).bind fun _ _ _ =>
          newObject.bind fun _ _ _ => walkAssign hname env _

theorem openFrame (f : Closure) (arguments : List Value) : Overlooks names (Eval.open f arguments) s := by
  refine of_globals fun hglobals => (enter f.env).bind fun env s₁ henter => ?_
  have henv : env = s.frames.inner f.env := by
    cases henter
    rfl
  have hhead : env.head? ≠ some Session.globalFrame := by
    rw [henv]
    exact fun h => (Nat.ne_of_gt hglobals) (Option.some.inj h)
  exact (defineAll hhead _ _).bind fun _ _ _ => pure _

end

/-! ## The world around a session -/

theorem readClock : Overlooks names readClock s :=
  of_modifyGet (fun _ => rfl) fun _ => Nat.le_refl _

theorem readLine : Overlooks names readLine s := by
  have htake : Overlooks names (modifyGet Session.takeLine : Eval (List Char)) s := by
    refine of_modifyGet (fun t => ?_) fun _ => Nat.le_refl _
    have hinput : (t.without names).input = t.input := rfl
    unfold Session.takeLine
    rw [hinput]
    rfl
  exact htake.bind fun _ _ _ => pure _

theorem printLine (line : String) : Overlooks names (modify (Session.printLine line) : Eval Unit) s :=
  of_modify (fun _ => rfl) fun _ => Nat.le_refl _

theorem nearestNumber (x : Option Float) : Overlooks names (nearestNumber x) s := by
  cases x with
  | some x => exact pure _
  | none => exact hostError _

theorem toValue (o : HostObject) : Overlooks names (toValue o) s := by
  obtain ⟨f, -, h⟩ | ⟨n, -, h⟩ | ⟨arity, body, -, h⟩ | ⟨-, h⟩ := toValue_cases o <;> rw [h]
  · exact pure _
  · exact nearestNumber _
  · exact of_modifyGet (fun _ => rfl) fun _ => Nat.le_refl _
  · exact hostError _

theorem toValues (os : List HostObject) : Overlooks names (toValues os) s := by
  induction os generalizing s with
  | nil => exact pure _
  | cons o os ih => exact (toValue o).bind fun _ _ _ => ih.bind fun _ _ _ => pure _

theorem hostArguments (callee : Value) (os : List HostObject) :
    Overlooks names (hostArguments callee os) s := by
  unfold Eval.hostArguments
  split
  · exact hostError _
  · split
    · exact toValues os
    · exact hostError _

theorem getGlobal (hname : name ∉ names) : Overlooks names (getGlobal name) s := by
  unfold Eval.getGlobal
  refine get_bind (pure _) ?_
  rintro t ⟨-, rfl⟩
  have hfind : (t.without names).frames.find? Session.globals name =
      t.frames.find? Session.globals name :=
    t.frames.find?_without hname Session.globals
  rw [hfind]

theorem setGlobal (hname : name ∉ names) (o : HostObject) : Overlooks names (setGlobal name o) s :=
  (toValue o).bind fun v _ _ => define (.inr hname) v

theorem keep (things : List HostForm) :
    Overlooks names (modify fun s => { s with memory := things } : Eval Unit) s :=
  of_modify (fun _ => rfl) fun _ => Nat.le_refl _

theorem attempt (h : Overlooks names x s) : Overlooks names (attempt x) s := by
  intro t ht
  have hinner := h t ht
  unfold Eval.attempt
  generalize x t = r at hinner ⊢
  generalize x s = r' at hinner ⊢
  cases hinner with
  | ok ht => exact .ok ht
  | @error _ _ i ht =>
      cases i with
      | fault e => exact .ok ht
      | host e => exact .ok ht
      | stuck | outOfFuel => exact .error ht

theorem map {g : α → β} (h : Overlooks names x s) : Overlooks names (g <$> x) s := by
  rw [map_eq_pure_bind]
  exact h.bind fun _ _ _ => pure _

theorem nested {site : Token} {step : Eval α} (h : s.HasRoom → Overlooks names step s.deeper) :
    Overlooks names (nested site step) s := by
  intro t ht
  obtain ⟨hglobals, rfl⟩ := ht
  by_cases hroom : (t.without names).HasRoom
  · have hroom' : t.HasRoom := hroom
    have hinner := h hroom t.deeper ⟨hglobals, rfl⟩
    rw [Eval.nested_of_room hroom, Eval.nested_of_room hroom']
    generalize step t.deeper = r at hinner ⊢
    generalize step (t.without names).deeper = r' at hinner ⊢
    cases hinner with
    | ok ht => exact .ok ⟨ht.globals, ht.without ▸ rfl⟩
    | error ht => exact .error ⟨ht.globals, ht.without ▸ rfl⟩
  · have hsame : (t.without names).limits = t.limits ∧ (t.without names).depth = t.depth := ⟨rfl, rfl⟩
    unfold Eval.nested
    rw [hsame.1, hsame.2]
    split
    · exact .error ⟨hglobals, rfl⟩
    split
    · exact .error ⟨hglobals, rfl⟩
    · next hblank hdeep => exact absurd ⟨hblank, Bool.eq_false_iff.mpr hdeep⟩ hroom

theorem catchFault {step : Eval Completion} (h : Overlooks names step s) :
    Overlooks names (catchFault step) s := by
  intro t ht
  have hinner := h t ht
  unfold Eval.catchFault
  generalize step t = r at hinner ⊢
  generalize step s = r' at hinner ⊢
  cases hinner with
  | @ok _ _ completion ht =>
      cases completion with
      | normal => exact .ok ht
      | returned v => exact .error ht
  | @error _ _ i ht =>
      cases i with
      | fault e => exact .ok ht
      | _ => exact .error ht

theorem conclude (error : Option RuntimeError) : Overlooks names (conclude error) s := by
  have hflag : Overlooks names
      (modify fun s => { s with hadRuntimeError := error.isSome } : Eval Unit) s :=
    of_modify (fun _ => rfl) fun _ => Nat.le_refl _
  refine hflag.bind fun _ _ _ => ?_
  split <;> exact pure _

theorem runProgram {run : Environment → List Stmt → Eval Completion} {code : String}
    (h : (compile code s.nextNode).problems = [] →
      Overlooks names (run Session.globals (compile code s.nextNode).statements) (s.ready code)) :
    Overlooks names (runProgram run code) s := by
  intro t ht
  obtain ⟨hglobals, rfl⟩ := ht
  by_cases hnone : (compile code (t.without names).nextNode).problems = []
  · have hnone' : (compile code t.nextNode).problems = [] := hnone
    have hrun : Overlooks names (do
        let error ← Eval.catchFault (run Session.globals (compile code t.nextNode).statements)
        Eval.conclude error : Eval Report) ((t.without names).ready code) :=
      (catchFault (h hnone)).bind fun error _ _ => conclude error
    rw [runProgram_accepted hnone, runProgram_accepted hnone']
    exact hrun (t.ready code) ⟨hglobals, rfl⟩
  · have hsome : (compile code t.nextNode).problems ≠ [] := hnone
    rw [runProgram_rejected hnone, runProgram_rejected hsome]
    exact .ok ⟨hglobals, rfl⟩

theorem executeProgram {run : Environment → List Stmt → Eval Completion} {code : String}
    (h : Overlooks names (Eval.runProgram run code) s) : Overlooks names (executeProgram run code) s := by
  refine h.bind fun report _ _ => ?_
  split
  · exact pure _
  · exact throw _
  · refine get_bind (pure _) ?_
    rintro t ⟨-, rfl⟩
    rfl

theorem runOther (sort : String) : Overlooks names (runOther sort) s := by
  have hbegin : Overlooks names (modify Session.beginRun : Eval Unit) s :=
    of_modify (fun _ => rfl) fun _ => Nat.le_refl _
  exact hbegin.bind fun _ _ _ => hostError _

theorem evaluateCode {eval : Environment → Expr → Eval Value} {code : String}
    (h : ∀ e, (compileExpression code s.nextNode).tree = .ok e →
      Overlooks names (eval Session.globals e)
        { s with nextNode := (compileExpression code s.nextNode).nextId }) :
    Overlooks names (evaluateCode eval code) s := by
  unfold Eval.evaluateCode
  refine get_bind ?_ ?_
  · have hnumber : Overlooks names (modify fun s' =>
        { s' with nextNode := (compileExpression code s.nextNode).nextId } : Eval Unit) s :=
      of_modify (fun _ => rfl) fun _ => Nat.le_refl _
    refine hnumber.bind fun _ s₁ hs₁ => ?_
    cases hs₁
    split
    · exact pure _
    · next htree => exact (h _ htree).map
  · rintro t ⟨-, rfl⟩
    rfl

end Overlooks

end Eval

end Lox
