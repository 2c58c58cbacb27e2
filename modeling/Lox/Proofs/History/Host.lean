import Lox.Proofs.Simulation.State

/-!
# What host functions may do

A host function only has the values that it was given or that were kept in mind, and may tell them apart
only as far as the host can look at them.  This is said of two uses of it at once: with things that look
the same to the host, it does the same.
-/

namespace Lox

/-- What is asked of host functions. -/
structure HostRules where
  /-- The views of hosts: which values and errors look the same to them. -/
  view : View → Prop
  /-- Whether host functions raise only errors that programs have, and hand over only what Lox can
  take. -/
  strict : Prop
  /-- The steps that host functions may take. -/
  allowed : Step → Prop

section

variable (rules : HostRules)

mutual

/-- Actions that do the same with what looks the same. -/
inductive HostAction.Follows : View → HostAction → HostAction → Prop where
  | give : HostObject.Follows V o o' → (rules.strict → o.Convertible) →
      HostAction.Follows V (.give o) (.give o')
  | raise : V.errors e e' → HostAction.Follows V (.raise (.fault e)) (.raise (.fault e'))
  | raiseHost : ¬ rules.strict → HostAction.Follows V (.raise (.host e)) (.raise (.host e))
  /-- A host function goes on with whatever the step comes to.  An orderly step never comes to a mistake
  of the host, if host functions make none. -/
  | ask : rules.allowed step → Step.Corresponds V step step' →
      (∀ V', rules.view V' → V ≤ V' → ∀ r r', Attempted V'.errors (Answer.Related V') r r' →
        (rules.strict → step.Orderly → ∀ e, r ≠ .error (.host e)) →
          HostAction.Follows V' (next r) (next' r')) →
      HostAction.Follows V (.ask step next) (.ask step' next')
  | recollect : (∀ V', rules.view V' → V ≤ V' → ∀ fs fs',
        List.Forall₂ (HostForm.Related V'.values) fs fs' →
          HostAction.Follows V' (next fs) (next' fs')) →
      HostAction.Follows V (.recollect next) (.recollect next')
  | keep : List.Forall₂ (HostForm.Related V.values) fs fs' → HostAction.Follows V a a' →
      HostAction.Follows V (.keep fs a) (.keep fs' a')

inductive HostObject.Follows : View → HostObject → HostObject → Prop where
  | form : HostForm.Related V.values f f' → HostObject.Follows V (.form f) (.form f')
  | integer : HostObject.Follows V (.integer n) (.integer n)
  | foreign : HostObject.Follows V (.foreign sort) (.foreign sort)
  | function : (∀ V', rules.view V' → V ≤ V' → ∀ fs fs', fs.length = arity →
        List.Forall₂ (HostForm.Related V'.values) fs fs' →
          HostAction.Follows V' (body fs) (body' fs')) →
      HostObject.Follows V (.function arity body) (.function arity body')

inductive ObjectsFollow : View → List HostObject → List HostObject → Prop where
  | nil : ObjectsFollow V [] []
  | cons : HostObject.Follows V o o' → ObjectsFollow V os os' →
      ObjectsFollow V (o :: os) (o' :: os')

/-- Steps in which the host does the same, with things that look the same. -/
inductive Step.Corresponds : View → Step → Step → Prop where
  | run : Step.Corresponds V (.run code) (.run code)
  | runOther : Step.Corresponds V (.runOther sort) (.runOther sort)
  | execute : Step.Corresponds V (.execute code) (.execute code)
  | evaluate : Step.Corresponds V (.evaluate code) (.evaluate code)
  | get : Step.Corresponds V (.get name) (.get name)
  | set : HostObject.Follows V o o' → Step.Corresponds V (.set name o) (.set name o')
  | call : HostForm.Related V.values f f' → ObjectsFollow V os os' →
      Step.Corresponds V (.call f os) (.call f' os')

end

end

/-- What is alike looks the same to a host under these rules. -/
structure Likeness.Obeys (ℓ : Likeness) (rules : HostRules) : Prop where
  view : ∀ w, rules.view (ℓ.view w)
  strict : ℓ.strict ↔ rules.strict
  allowed : ∀ {step}, rules.allowed step → ℓ.allowed step

variable {ℓ : Likeness} {rules : HostRules}

theorem formsAlike_of_le {V : View} {w : World} (hV : V ≤ ℓ.view w) {fs fs' : List HostForm}
    (h : List.Forall₂ (HostForm.Related V.values) fs fs') :
    List.Forall₂ (HostForm.Related (Value.Alike ℓ w)) fs fs' :=
  h.imp fun _ _ hf => hf.imp hV.values

mutual

theorem HostAction.Follows.alike (hℓ : ℓ.Obeys rules) :
    ∀ {V : View} {w : World} {a a' : HostAction}, HostAction.Follows rules V a a' →
      V ≤ ℓ.view w → HostAction.Alike ℓ w a a'
  | _, _, _, _, .give ho hstrict, hV => .give (ho.alike hℓ hV) fun h => hstrict (hℓ.strict.mp h)
  | _, _, _, _, .raise he, hV => .raise (hV.errors he)
  | _, _, _, _, .raiseHost hstrict, _ => .raiseHost fun h => hstrict (hℓ.strict.mp h)
  | _, _, _, _, .ask hallowed hstep hnext, hV =>
      .ask (hℓ.allowed hallowed) (hstep.alike hℓ hV) fun w' r r' hw hr horderly =>
        (hnext _ (hℓ.view w') (View.le_trans hV (Likeness.view_mono hw)) r r' hr
          fun h => horderly (hℓ.strict.mpr h)).alike hℓ (View.le_refl _)
  | _, _, _, _, .recollect hnext, hV => .recollect fun w' fs fs' hw hfs =>
      (hnext _ (hℓ.view w') (View.le_trans hV (Likeness.view_mono hw)) fs fs' hfs).alike hℓ
        (View.le_refl _)
  | _, _, _, _, .keep hfs ha, hV => .keep (formsAlike_of_le hV hfs) (ha.alike hℓ hV)

theorem HostObject.Follows.alike (hℓ : ℓ.Obeys rules) :
    ∀ {V : View} {w : World} {o o' : HostObject}, HostObject.Follows rules V o o' →
      V ≤ ℓ.view w → HostObject.Alike ℓ w o o'
  | _, _, _, _, .form hf, hV => .form (hf.imp hV.values)
  | _, _, _, _, .integer, _ => .integer
  | _, _, _, _, .foreign, _ => .foreign
  | _, _, _, _, .function hbody, hV => .function fun w' fs fs' hw hlength hfs =>
      (hbody _ (hℓ.view w') (View.le_trans hV (Likeness.view_mono hw)) fs fs' hlength hfs).alike hℓ
        (View.le_refl _)

theorem ObjectsFollow.alike (hℓ : ℓ.Obeys rules) :
    ∀ {V : View} {w : World} {os os' : List HostObject}, ObjectsFollow rules V os os' →
      V ≤ ℓ.view w → ObjectsAlike ℓ w os os'
  | _, _, _, _, .nil, _ => .nil
  | _, _, _, _, .cons ho hos, hV => .cons (ho.alike hℓ hV) (hos.alike hℓ hV)

theorem Step.Corresponds.alike (hℓ : ℓ.Obeys rules) :
    ∀ {V : View} {w : World} {step step' : Step}, Step.Corresponds rules V step step' →
      V ≤ ℓ.view w → Step.Alike ℓ w step step'
  | _, _, _, _, .run, _ => .run
  | _, _, _, _, .runOther, _ => .runOther
  | _, _, _, _, .execute, _ => .execute
  | _, _, _, _, .evaluate, _ => .evaluate
  | _, _, _, _, .get, _ => .get
  | _, _, _, _, .set ho, hV => .set (ho.alike hℓ hV)
  | _, _, _, _, .call hf hos, hV => .call (hf.imp hV.values) (hos.alike hℓ hV)

end

end Lox
