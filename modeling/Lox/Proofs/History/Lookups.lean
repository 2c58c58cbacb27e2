import Lox.Proofs.Soundness.Placement

/-!
# Looking references up at a distance

What the evaluator does with a reference is given by its distance alone.  Here each form of reference
is evaluated at a distance that is handed in, with no table; the evaluator does the same with the
distance that its table has at the time.
-/

namespace Lox

namespace Eval

/-- The variable of a name at a distance, or a global one if there is none. -/
def lookUpAt (env : Environment) (name : Token) : Option Nat → Eval Value
  | some hops => readAt env hops name.lexeme
  | none => walk Session.globals name

/-- Changes the variable of a name at a distance, or a global one if there is none. -/
def assignAt (env : Environment) (name : Token) (value : Value) : Option Nat → Eval Unit
  | some hops => writeAt env hops name.lexeme value
  | none => walkAssign Session.globals name value

/-- A method of the superclass that is bound at a distance. -/
def superMethodAt (env : Environment) (method : Token) : Option Nat → Eval Value
  | none => stuck .unresolvedSuper
  | some hops => do
    let superclass ← readAt env hops "super"
    let this ← readAt env ((hops : Int) - 1) "this"
    match superclass with
    | .classObject cls =>
      match cls.findMethod? method.lexeme with
      | some found => return .closure (← bindThis found this)
      | none => fault method (.undefinedProperty method.lexeme)
    | _ => stuck .superNotClass

/-- The superclass of a class whose declaration names it at a distance. -/
def superclassAt (env : Environment) (name : Token) (distance : Option Nat) :
    Eval (Option Class) := do
  match ← lookUpAt env name distance with
  | .classObject cls => return some cls
  | _ => fault name .superclassNotClass

/-- Declares a class whose superclass is yet to be found. -/
def declareClassOver (env : Environment) (name : Token) (base : Eval (Option Class))
    (methods : List FunDecl) : Eval Unit := do
  let base ← base
  define env name.lexeme .nil
  let methods ← newMethods (← methodEnv env base) [] methods
  let cls := Class.mk (← newObject) name.lexeme base methods
  walkAssign env name (.classObject cls)

variable {env : Environment} {id : NodeId} {name method : Token} {s : Session}

theorem lookUp_apply : lookUp env id name s = lookUpAt env name (s.hops.find? id) s := by
  unfold lookUp
  rw [eval_get_bind_apply]
  cases s.hops.find? id <;> rfl

theorem assign_apply {value : Value} :
    assign env id name value s = assignAt env name value (s.hops.find? id) s := by
  unfold assign
  rw [eval_get_bind_apply]
  cases s.hops.find? id <;> rfl

theorem superMethod_apply :
    superMethod env id method s = superMethodAt env method (s.hops.find? id) s := by
  unfold superMethod
  rw [eval_get_bind_apply]
  cases s.hops.find? id <;> rfl

theorem superclass_apply :
    superclass env (some (id, name)) s = superclassAt env name (s.hops.find? id) s := by
  unfold superclass superclassAt
  dsimp only
  conv_lhs => rw [eval_bind_apply, lookUp_apply]
  exact (eval_bind_apply (lookUpAt env name (s.hops.find? id)) _ s).symm

theorem declareClass_apply {methods : List FunDecl} {base : Token} :
    declareClass env name (some (id, base)) methods s =
      declareClassOver env name (superclassAt env base (s.hops.find? id)) methods s := by
  unfold declareClass declareClassOver
  rw [eval_bind_apply, eval_bind_apply, superclass_apply]

end Eval

/-- The distance that resolution finds for a reference of a program or expression. -/
def Part.distance (part : Part) (id : NodeId) : Option Nat :=
  hopsOf (part.resolve {} []).references id

/-- The reference that the evaluation of a task looks up itself, in the part of the code that the task
evaluates. -/
inductive Task.Refers : Task → Part → NodeId → Prop where
  | read : Task.Refers (.eval env (.read number name)) (.expr (.read number name)) number
  | assign : Task.Refers (.eval env (.assign number name e)) (.expr (.assign number name e)) number
  | self : Task.Refers (.eval env (.self number keyword)) (.expr (.self number keyword)) number
  | super : Task.Refers (.eval env (.super number keyword method))
      (.expr (.super number keyword method)) number
  | superclass : Task.Refers (.exec env (.classDecl name (some (number, base)) methods))
      (.stmt (.classDecl name (some (number, base)) methods)) number

/-- With `n + 1` steps in a session, a task looks its reference up at a distance. -/
def Task.GoesBy (n : Nat) (s : Session) (distance : Option Nat) : Task → Prop
  | .eval env (.read id name) =>
      Eval.eval (n + 1) env (.read id name) s = Eval.lookUpAt env name distance s
  | .eval env (.assign id name e) =>
      Eval.eval (n + 1) env (.assign id name e) s = (do
        let value ← Eval.eval n env e
        Eval.assignAt env name value distance
        return value : Eval Value) s
  | .eval env (.self id keyword) =>
      Eval.eval (n + 1) env (.self id keyword) s = Eval.lookUpAt env keyword distance s
  | .eval env (.super id keyword method) =>
      Eval.eval (n + 1) env (.super id keyword method) s = Eval.superMethodAt env method distance s
  | .exec env (.classDecl name (some (id, base)) methods) =>
      Eval.exec (n + 1) env (.classDecl name (some (id, base)) methods) s = (do
        Eval.declareClassOver env name (Eval.superclassAt env base distance) methods
        return .normal : Eval Completion) s
  | _ => False

/-- A task goes by what the table has for its reference by the time that it is looked up. -/
theorem Task.Refers.goesBy {n : Nat} {task : Task} {part : Part} {id : NodeId} {s : Session}
    {distance : Option Nat} (h : task.Refers part id) (hnow : s.hops.find? id = distance)
    (hlater : ∀ {env number name e v s'}, task = .eval env (.assign number name e) →
      Eval.eval n env e s = .ok v s' → s'.hops.find? id = distance) :
    task.GoesBy n s distance := by
  cases h with
  | read | self =>
      unfold GoesBy Eval.eval
      dsimp only
      rw [Eval.lookUp_apply, hnow]
  | super =>
      unfold GoesBy Eval.eval
      dsimp only
      rw [Eval.superMethod_apply, hnow]
  | superclass =>
      unfold GoesBy Eval.exec
      dsimp only
      rw [eval_bind_apply, eval_bind_apply, Eval.declareClass_apply, hnow]
  | @assign env _ name e =>
      unfold GoesBy
      dsimp only
      conv_lhs => unfold Eval.eval
      dsimp only
      rw [eval_bind_apply, eval_bind_apply]
      rcases hvalue : Eval.eval n env e s with ⟨v, s₁⟩ | ⟨interrupt, s₁⟩
      · dsimp only
        rw [eval_bind_apply, eval_bind_apply, Eval.assign_apply, hlater rfl hvalue]
      · rfl

section

variable {ℓ : Likeness} {w : World} {n : Nat} {task : Task} {s : Session} {part : Part} {id : NodeId}

/-- A reference has the distance of its code in every session that knows the code. -/
theorem Sited.found {code : Code} {c : Context} {σ : Scopes} {ρs : List (String → String)}
    {env : Environment} (h : Sited w code c σ ρs env part) (hs : Session.Alike ℓ w s s)
    (hid : id ∈ part.ids) : s.hops.find? id = code.part.distance id := by
  rw [hs.recorded.table h.accepted (h.id_mem hid)]
  exact code.checked.sound.recorded id (h.id_mem hid)

/-- A reference that is looked up stands in code that the session knows, and is looked up at the
distance that the code has for it. -/
theorem Task.Refers.settled (h : task.Refers part id) (htask : task.Stands ℓ w s) :
    ∃ w' code c σ ρs env, Session.Alike ℓ w' s s ∧ Sited w' code c σ ρs env part ∧
      id ∈ part.ids ∧ task.GoesBy n s (code.part.distance id) := by
  obtain ⟨w₁, -, hs, hplaced⟩ := htask
  cases h with
  | read | self | super =>
      cases hplaced with
      | eval hsited _ =>
          have hid : id ∈ [id] := List.mem_cons_self
          exact ⟨w₁, _, _, _, _, _, hs, hsited, hid,
            Refers.goesBy (by constructor) (hsited.found hs hid) nofun⟩
  | @assign env _ name e =>
      cases hplaced with
      | eval hsited halike =>
          have hid : id ∈ e.ids ++ [id] := List.mem_append_right _ List.mem_cons_self
          refine ⟨w₁, _, _, _, _, _, hs, hsited, hid, Refers.assign.goesBy (hsited.found hs hid) ?_⟩
          -- The value may bring new code into the session, which leaves known distances alone.
          intro _ _ _ _ v s' heq hvalue
          cases heq
          obtain ⟨w₂, hw₂, hs₂, -⟩ :=
            ((evaluatesAlike_same n).eval hsited.assigned halike.assigned).done hs hvalue
          exact (hsited.mono hw₂.le).found hs₂ hid
  | @superclass _ _ _ _ methods =>
      cases hplaced with
      | exec hsited _ =>
          have hid : id ∈ id :: methodIds methods := List.mem_cons_self
          exact ⟨w₁, _, _, _, _, _, hs, hsited, hid,
            Refers.superclass.goesBy (hsited.found hs hid) nofun⟩

end

end Lox
