import Lox.Session.Action

/-!
Functions, classes and instances: how they are made, and how methods come to know their instance.
-/

namespace Lox.Eval

/-- Makes a function of a declaration in an environment. -/
def newClosure (env : Environment) (role : Role) (decl : FunDecl) : Eval Closure := do
  return ⟨← newObject, decl, env, role⟩

/-- The method with `this` bound in a frame of its own. -/
def bindThis (method : Closure) (this : Value) : Eval Closure := do
  let env ← enter method.env
  define env "this" this
  newClosure env method.role method.decl

def newInstance (cls : Class) : Eval Value :=
  modifyGet fun s => (.object s.fields.size cls, { s with fields := s.fields.push [] })

def setField (id : InstanceId) (name : String) (value : Value) : Eval Unit :=
  modify fun s => { s with fields := s.fields.modify id (·.set name value) }

/-- A field of an instance, or else a method of its class bound to it. -/
def property (id : InstanceId) (cls : Class) (name : Token) : Eval Value := do
  match ((← get).fields.getD id []).find? name.lexeme with
  | some value => return value
  | none =>
    match cls.findMethod? name.lexeme with
    | some method => return .closure (← bindThis method (.object id cls))
    | none => fault name (.undefinedProperty name.lexeme)

/-- A method of the superclass bound to the present instance, which is one frame further in. -/
def superMethod (env : Environment) (id : NodeId) (method : Token) : Eval Value := do
  match (← get).hops.find? id with
  | none => stuck .unresolvedSuper
  | some hops =>
    let superclass ← readAt env hops "super"
    let this ← readAt env ((hops : Int) - 1) "this"
    match superclass with
    | .classObject cls =>
      match cls.findMethod? method.lexeme with
      | some found => return .closure (← bindThis found this)
      | none => fault method (.undefinedProperty method.lexeme)
    | _ => stuck .superNotClass

/-- The methods of a class by name; of two with one name the later counts. -/
def newMethods (env : Environment) (methods : Bindings Closure) :
    List FunDecl → Eval (Bindings Closure)
  | [] => return methods
  | decl :: decls => do
    let method ← newClosure env (Role.ofMethod decl) decl
    newMethods env (methods.set decl.name.lexeme method) decls

/-- The superclass that a class declaration names. -/
def superclass (env : Environment) : Option (NodeId × Token) → Eval (Option Class)
  | none => return none
  | some (id, name) => do
    match ← lookUp env id name with
    | .classObject cls => return some cls
    | _ => fault name .superclassNotClass

/-- The environment of the methods of a class, with `super` in it if there is a superclass. -/
def methodEnv (env : Environment) : Option Class → Eval Environment
  | none => return env
  | some cls => do
    let inner ← enter env
    define inner "super" (.classObject cls)
    return inner

/-- Declares a class.  Its name is bound before its methods are made, so that they can use it. -/
def declareClass (env : Environment) (name : Token) (base : Option (NodeId × Token))
    (methods : List FunDecl) : Eval Unit := do
  let base ← superclass env base
  define env name.lexeme .nil
  let methods ← newMethods (← methodEnv env base) [] methods
  let cls := Class.mk (← newObject) name.lexeme base methods
  walkAssign env name (.classObject cls)

end Lox.Eval
