import Lox.Proofs.History.Steps

/-!
# Hosts that look at values from outside

A host that is given a function can call it and compare it, but has no business with its code.  What it
can see of a value is the same for all values that are alike.
-/

namespace Lox

/-- How values look to a host that does not look into functions. -/
structure Value.LooksLike (v v' : Value) : Prop where
  display : v'.display = v.display
  arity : v'.arity? = v.arity?
  sort : v'.hostSort = v.hostSort
  basic : v.isBasic → v' = v

theorem Value.Alike.looksLike {ℓ : Likeness} {w : World} {v v' : Value} (h : Value.Alike ℓ w v v') :
    v.LooksLike v' where
  display := h.display_eq
  arity := h.arity?_eq
  sort := h.hostSort_eq
  basic hbasic := by
    cases h with
    | native _ | closure _ | classObject _ | object _ => cases hbasic
    | _ => rfl

/-- Views in which a host sees of values and errors what can be seen from outside. -/
structure View.Outward (V : View) : Prop where
  values : ∀ {v v'}, V.values v v' → v.LooksLike v'
  equals : ∀ {v v' u u'}, V.values v v' → V.values u u' → v'.equals u' = v.equals u
  basic : ∀ {v}, v.isBasic → V.values v v
  faults : ∀ {e e'}, V.errors e e' → e'.fault = e.fault

theorem Likeness.view_outward (ℓ : Likeness) (w : World) : (ℓ.view w).Outward where
  values h := h.looksLike
  equals h hu := h.equals_eq hu
  basic h := Value.isBasic_alike h
  faults h := h.2.1

/-- Views in which the line of an error is seen, and any error that programs have may be raised. -/
structure View.Lined (V : View) : Prop where
  lines : ∀ {e e'}, V.errors e e' → e'.token.line = e.token.line
  errors : ∀ {e}, e.fault.Proper → V.errors e e

/-- Hosts that take values as they look from outside, and compare them.  They may do anything with the
session, but do not go by the token that an error is reported at, only by its line. -/
def HostRules.outward : HostRules where
  view V := V.Outward ∧ V.Lined
  strict := False
  allowed _ := True

/-- Hosts that hand in no code, and do not go by the line of an error either.  They raise no errors but
those that they were told of. -/
def HostRules.secluded : HostRules where
  view V := V.Outward
  strict := False
  allowed step := ¬ step.HandsIn

end Lox
