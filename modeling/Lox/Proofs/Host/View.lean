import Lox.Session.Steps
import Mathlib.Data.List.Forall2

/-!
# What hosts can tell apart

The host sees values of Lox as forms, and errors as they are.  Two uses of a host function may be
given things that differ in what the host does not look at.  A view says which values and errors look
the same; forms, answers and all that a step can come to look the same if the values and errors in
them do.
-/

namespace Lox

structure View where
  values : Value → Value → Prop
  errors : RuntimeError → RuntimeError → Prop

namespace View

/-- A view in which more looks the same, as there is more to be seen. -/
protected structure le (V V' : View) : Prop where
  values : ∀ {v v'}, V.values v v' → V'.values v v'
  errors : ∀ {e e'}, V.errors e e' → V'.errors e e'

instance : LE View := ⟨View.le⟩

theorem le_refl (V : View) : V ≤ V :=
  ⟨fun h => h, fun h => h⟩

theorem le_trans {V V' V'' : View} (h : V ≤ V') (h' : V' ≤ V'') : V ≤ V'' :=
  ⟨fun hv => h'.values (h.values hv), fun he => h'.errors (h.errors he)⟩

end View

inductive HostForm.Related (R : Value → Value → Prop) : HostForm → HostForm → Prop where
  | plain : R v v' → HostForm.Related R (.plain v) (.plain v')
  | wrapper : R f f' → HostForm.Related R (.wrapper f) (.wrapper f')

inductive Report.Related (E : RuntimeError → RuntimeError → Prop) : Report → Report → Prop where
  | finished : Report.Related E .finished .finished
  | rejected : Report.Related E (.rejected problems) (.rejected problems)
  | failed : E e e' → Report.Related E (.failed e) (.failed e')

inductive Answer.Related (V : View) : Answer → Answer → Prop where
  | report : Report.Related V.errors r r' → Answer.Related V (.report r) (.report r')
  | text : Answer.Related V (.text t) (.text t)
  | form : HostForm.Related V.values f f' → Answer.Related V (.form (.ok f)) (.form (.ok f'))
  | refused : Answer.Related V (.form (.error problems)) (.form (.error problems))
  | nothing : Answer.Related V .nothing .nothing

/-- Ends of attempts that look the same. -/
inductive Attempted {α β : Type} (E : RuntimeError → RuntimeError → Prop) (R : α → β → Prop) :
    Except Raised α → Except Raised β → Prop where
  | ok : R a b → Attempted E R (.ok a) (.ok b)
  | fault : E e e' → Attempted E R (.error (.fault e)) (.error (.fault e'))
  | host : Attempted E R (.error (.host e)) (.error (.host e))

section

variable {R R' : Value → Value → Prop}

theorem HostForm.Related.imp (h : ∀ {v v'}, R v v' → R' v v') {f f' : HostForm}
    (hf : HostForm.Related R f f') : HostForm.Related R' f f' := by
  cases hf with
  | plain hv => exact .plain (h hv)
  | wrapper hf => exact .wrapper (h hf)

theorem HostForm.Related.value {f f' : HostForm} (hf : HostForm.Related R f f') :
    R f.value f'.value := by
  cases hf with
  | plain hv => exact hv
  | wrapper hf => exact hf

/-- Values that can be called alike have forms that look the same. -/
theorem HostForm.related_ofValue {v v' : Value} (hv : R v v') (harity : v'.arity? = v.arity?) :
    HostForm.Related R (.ofValue v) (.ofValue v') := by
  unfold HostForm.ofValue
  rw [harity]
  cases v.arity? with
  | some _ => exact .wrapper hv
  | none => exact .plain hv

end

@[simp] theorem HostForm.value_ofValue (v : Value) : (HostForm.ofValue v).value = v := by
  unfold HostForm.ofValue
  cases v.arity? <;> rfl

/-! ## Steps of hosts -/

/-- Whether Lox has a value for a thing of the host. -/
def HostObject.Convertible : HostObject → Prop
  | .form (.plain v) => ∀ i cls, v ≠ .object i cls
  | .form (.wrapper _) => True
  | .integer n => Number.ofInt? n ≠ none
  | .foreign _ => False
  | .function _ _ => True

/-- A step without a mistake on the side of the host. -/
def Step.Orderly : Step → Prop
  | .runOther _ => False
  | .set _ object => object.Convertible
  | .call (.plain _) _ => False
  | .call (.wrapper f) arguments =>
      f.arity? = some arguments.length ∧ ∀ o ∈ arguments, o.Convertible
  | _ => True

/-- Whether a step hands in something to be read. -/
def Step.HandsIn : Step → Prop
  | .run _ | .runOther _ | .execute _ | .evaluate _ => True
  | _ => False

end Lox
