/-!
Names bound to things: the variables of a frame, the fields of an instance, the methods of a class.
-/

namespace Lox

/-- Pairs of a name and what it is bound to, in the order of the first bindings. -/
abbrev Bindings (α : Type) : Type := List (String × α)

namespace Bindings

variable {α : Type}

def find? : Bindings α → String → Option α
  | [], _ => none
  | (key, value) :: rest, name => if key = name then some value else find? rest name

def binds (bindings : Bindings α) (name : String) : Bool :=
  (bindings.find? name).isSome

/-- Binds a name.  A name that is bound already keeps its place. -/
def set : Bindings α → String → α → Bindings α
  | [], name, value => [(name, value)]
  | (key, old) :: rest, name, value =>
    if key = name then (name, value) :: rest else (key, old) :: set rest name value

def names (bindings : Bindings α) : List String :=
  bindings.map Prod.fst

end Bindings

end Lox
