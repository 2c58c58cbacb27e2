import Lox.Proofs.Host.View

/-!
# What things of the host are taken for

The tests of `Eval.toValue` come one after the other.  A wrapper passes two of them: it lets a value be
seen, and it is a function of the host.  As the first of these two decides, a value that goes out to the
host as a form comes back as itself.
-/

namespace Lox.Eval

@[simp] theorem toValue_wrapper (f : Value) : toValue (.form (.wrapper f)) = pure f := rfl

@[simp] theorem toValue_integer (n : Int) :
    toValue (.integer n) = nearestNumber (Number.ofInt? n) := rfl

@[simp] theorem toValue_foreign (sort : String) :
    toValue (.foreign sort) = hostError (.notConvertible sort) := rfl

@[simp] theorem toValue_function (arity : Nat) (body : List HostForm → HostAction) :
    toValue (.function arity body) = hire arity body := rfl

@[simp] theorem toValue_instance (i : InstanceId) (cls : Class) :
    toValue (.form (.plain (.object i cls))) =
      hostError (.notConvertible (Value.object i cls).hostSort) := rfl

/-- A value that is no instance stands for itself. -/
theorem toValue_plain {v : Value} (h : ∀ i cls, v ≠ .object i cls) :
    toValue (.form (.plain v)) = pure v := by
  cases v with
  | object i cls => exact absurd rfl (h i cls)
  | _ => rfl

/-- What goes out to the host as a form comes back as the same value. -/
theorem toValue_ofValue {v : Value} (h : ∀ i cls, v ≠ .object i cls) :
    toValue (.form (.ofValue v)) = pure v := by
  unfold HostForm.ofValue
  split
  · exact toValue_wrapper v
  · exact toValue_plain h

/-- The four ways in which a thing of the host can be taken. -/
theorem toValue_cases (o : HostObject) :
    (∃ f, o = .form f ∧ toValue o = pure f.value) ∨
      (∃ n, o = .integer n ∧ toValue o = nearestNumber (Number.ofInt? n)) ∨
      (∃ arity body, o = .function arity body ∧ toValue o = hire arity body) ∨
      ¬ o.Convertible ∧ toValue o = hostError (.notConvertible o.sort) := by
  cases o with
  | form f =>
      cases f with
      | plain v =>
          cases v with
          | object i cls => exact .inr (.inr (.inr ⟨fun h => h i cls rfl, rfl⟩))
          | _ => exact .inl ⟨_, rfl, rfl⟩
      | wrapper f => exact .inl ⟨_, rfl, rfl⟩
  | integer n => exact .inr (.inl ⟨n, rfl, rfl⟩)
  | foreign sort => exact .inr (.inr (.inr ⟨fun h => h, rfl⟩))
  | function arity body => exact .inr (.inr (.inl ⟨arity, body, rfl, rfl⟩))

end Lox.Eval
