import Lox.Proofs.HostCall.Hiding
import Lox.Proofs.HostCall.Source
import Lox.Proofs.History.Steps
import Lox.Proofs.Naming.Run

/-!
# Arguments in global variables

A host that does not call a function itself can define a global variable for each argument, and
evaluate a call with these variables.  The same values reach the function, and the session is the same
but for the variables and for the numbers that the references of the call have used up.
-/

namespace Lox

/-! ## Conversion -/

namespace Eval

variable {s s' : Session}

theorem nearestNumber_at {number : Option Float} {v : Value} (h : nearestNumber number s = .ok v s') :
    s' = s ∧ ∀ t, nearestNumber number t = .ok v t := by
  cases number with
  | none => cases h
  | some x =>
      cases h
      exact ⟨rfl, fun _ => rfl⟩

/-- A conversion looks at the natives of a session, and changes nothing else. -/
theorem toValue_at {object : HostObject} {v : Value} (h : toValue object s = .ok v s') {t : Session}
    (ht : t.natives = s.natives) : toValue object t = .ok v { t with natives := s'.natives } := by
  obtain ⟨f, -, hcase⟩ | ⟨n, -, hcase⟩ | ⟨arity, body, -, hcase⟩ | ⟨-, hcase⟩ := toValue_cases object <;>
    rw [hcase] at h ⊢
  · cases h
    rw [← ht]
    rfl
  · obtain ⟨rfl, hnumber⟩ := nearestNumber_at h
    rw [← ht]
    exact hnumber t
  · cases h
    rw [← ht]
    rfl
  · cases h

theorem toValues_eq {objects : List HostObject} {vs : List Value} (h : toValues objects s = .ok vs s') :
    s' = { s with natives := s'.natives } := by
  induction objects generalizing s vs with
  | nil =>
      cases h
      rfl
  | cons object objects ih =>
      obtain ⟨v, s₁, hv, hrest⟩ := eval_bind_inv h
      obtain ⟨vs, s₂, hvs, hpure⟩ := eval_bind_inv hrest
      cases hpure
      have hfirst := toValue_at hv rfl
      rw [hv] at hfirst
      injection hfirst with _ hfirst
      rw [ih hvs, hfirst]

end Eval

/-! ## Definition -/

namespace Session

/-- Defines global variables one after the other. -/
def setGlobals : List String → List HostObject → Eval Unit
  | param :: params, argument :: arguments => do
    Eval.setGlobal param argument
    setGlobals params arguments
  | _, _ => return ()

def bindAll (s : Session) : List String → List Value → Session
  | param :: params, v :: vs => (s.binding param v).bindAll params vs
  | _, _ => s

variable {s s' t : Session} {names params : List String} {vs : List Value}

theorem setGlobals_eq {arguments : List HostObject}
    (h : Eval.toValues arguments s = .ok vs s') (hcount : params.length = arguments.length)
    (ht : t.natives = s.natives) :
    setGlobals params arguments t = .ok () (bindAll { t with natives := s'.natives } params vs) := by
  induction arguments generalizing s t vs params with
  | nil =>
      cases h
      obtain rfl := List.length_eq_zero_iff.mp hcount
      rw [← ht]
      rfl
  | cons argument arguments ih =>
      obtain ⟨v, s₁, hv, hrest⟩ := eval_bind_inv h
      obtain ⟨vs, s₂, hvs, hpure⟩ := eval_bind_inv hrest
      cases hpure
      cases params with
      | nil => cases hcount
      | cons param params =>
          have hset : Eval.setGlobal param argument t =
              .ok () (binding { t with natives := s₁.natives } param v) := by
            rw [Eval.setGlobal, eval_bind_ok (Eval.toValue_at hv ht)]
            rfl
          rw [setGlobals, eval_bind_ok hset]
          exact ih hvs (Nat.succ.inj hcount) rfl

theorem bindAll_eq (s : Session) (params : List String) (vs : List Value) :
    s.bindAll params vs = { s with frames := (s.bindAll params vs).frames } := by
  induction params generalizing s vs with
  | nil => rfl
  | cons param params ih =>
      cases vs with
      | nil => rfl
      | cons v vs => exact ih (s.binding param v) vs

theorem size_bindAll (s : Session) (params : List String) (vs : List Value) :
    (s.bindAll params vs).frames.frames.size = s.frames.frames.size := by
  induction params generalizing s vs with
  | nil => rfl
  | cons param params ih =>
      cases vs with
      | nil => rfl
      | cons v vs => exact (ih (s.binding param v) vs).trans (Frames.size_define s.frames globals param v)

theorem without_bindAll (s : Session) (hparams : ∀ param ∈ params, param ∈ names) (vs : List Value) :
    (s.bindAll params vs).without names = s.without names := by
  induction params generalizing s vs with
  | nil => rfl
  | cons param params ih =>
      cases vs with
      | nil => rfl
      | cons v vs =>
          have hbinding : (s.binding param v).without names = s.without names := by
            unfold Session.without binding
            rw [Frames.without_define_globals s.frames (hparams param List.mem_cons_self)]
          exact (ih (s.binding param v) (fun other h => hparams other (List.mem_cons_of_mem _ h)) vs).trans
            hbinding

theorem hides_bindAll (hglobals : 0 < s.frames.frames.size)
    (hunbound : ∀ param ∈ params, s.frames.find? globals param = none) (vs : List Value) :
    s.Hides params (s.bindAll params vs) where
  globals := Nat.lt_of_lt_of_eq hglobals (s.size_bindAll params vs).symm
  without := by
    rw [s.without_bindAll (fun _ h => h) vs]
    unfold Session.without
    rw [Frames.without_eq_self s.frames hunbound]

theorem find?_bindAll_of_notMem (s : Session) {name : String} (hname : name ∉ params) (vs : List Value) :
    (s.bindAll params vs).frames.find? globals name = s.frames.find? globals name := by
  induction params generalizing s vs with
  | nil => rfl
  | cons param params ih =>
      cases vs with
      | nil => rfl
      | cons v vs =>
          have hne : name ≠ param := fun heq => hname (heq ▸ List.mem_cons_self)
          rw [bindAll, ih (s.binding param v) (fun h => hname (List.mem_cons_of_mem _ h)) vs,
            Frames.find?_globals, Frames.find?_globals, find?_binding s param v (.inr hne)]

theorem bindAll_binds (hglobals : 0 < s.frames.frames.size) (hdistinct : params.Nodup)
    (hcount : params.length = vs.length) :
    List.Forall₂ (fun param v => (s.bindAll params vs).frames.find? globals param = some v) params vs := by
  induction params generalizing s vs with
  | nil =>
      obtain rfl := List.length_eq_zero_iff.mp hcount.symm
      exact .nil
  | cons param params ih =>
      cases vs with
      | nil => cases hcount
      | cons v vs =>
          obtain ⟨hparam, hdistinct⟩ := List.nodup_cons.mp hdistinct
          have hsize : 0 < (s.binding param v).frames.frames.size :=
            Nat.lt_of_lt_of_eq hglobals (Frames.size_define s.frames globals param v).symm
          have hfirst : (s.binding param v).frames.find? globals param = some v := by
            unfold binding globals Frames.define Frames.find?
            rw [Frames.bindings_update, if_pos ⟨rfl, hglobals⟩, Bindings.find?_set_self]
          refine .cons ?_ (ih hsize hdistinct (Nat.succ.inj hcount))
          rw [bindAll, find?_bindAll_of_notMem _ hparam vs, hfirst]

end Session

theorem Session.Alike.bindAll {ℓ : Likeness} {w : World} {s : Session} {vs : List Value}
    (hs : Session.Alike ℓ w s s) (hvs : ∀ v ∈ vs, Value.Alike ℓ w v v) (params : List String) :
    ∃ w', w ≤ w' ∧ Session.Alike ℓ w' (s.bindAll params vs) (s.bindAll params vs) := by
  induction params generalizing w s vs with
  | nil => exact ⟨w, World.le_refl w, hs⟩
  | cons param params ih =>
      cases vs with
      | nil => exact ⟨w, World.le_refl w, hs⟩
      | cons v vs =>
          have hdefine : Simulates ℓ True _ w (Eval.define Session.globals param v)
              (Eval.define Session.globals (renameHere [] param) v) :=
            simulates_define .globals nofun (fun h => absurd rfl h)
              fun _ hw _ => (hvs v List.mem_cons_self).mono hw
          have hout := hdefine s s hs
          change Outcome ℓ True _ w (.ok () (s.binding param v)) (.ok () (s.binding param v)) at hout
          cases hout with
          | ok hw hbinding _ =>
              obtain ⟨w', hw', hs'⟩ := ih hbinding fun u hu =>
                (hvs u (List.mem_cons_of_mem _ hu)).mono hw.le
              exact ⟨w', World.le_trans hw.le hw', hs'⟩

/-! ## Evaluation -/

namespace Session

/-- Defines a global variable for each argument of a call, and evaluates the call with them. -/
def evaluateCall (fuel : Nat) (callee : String) (params : List String) (arguments : List HostObject) :
    Eval (Except (List Diagnostic) HostForm) := do
  setGlobals params arguments
  evaluate fuel (callSource callee params)

/-- Calls a global variable from the host. -/
def callGlobal (fuel : Nat) (callee : String) (arguments : List HostObject) : Eval HostForm := do
  call fuel (← Eval.getGlobal callee) arguments

variable {s s' t : Session} {i : NodeId} {callee : String} {params : List String} {v : Value}
  {vs : List Value}

theorem eval_read (hfresh : s.hops.find? i = none) (hbound : s.frames.find? globals callee = some v)
    (fuel : Nat) : Eval.eval (fuel + 1) globals (.read i (Scan.nameToken callee)) s = .ok v s := by
  have hlexeme : (Scan.nameToken callee).lexeme = callee := String.ofList_toList
  have hwalk : Eval.walk globals (Scan.nameToken callee) s = .ok v s := by
    unfold Eval.walk
    rw [eval_get_bind_apply, hlexeme, hbound]
    rfl
  rw [Eval.eval, Eval.lookUp, eval_get_bind_apply, hfresh]
  exact hwalk

theorem evalAll_argumentTrees (hfresh : ∀ id, i ≤ id → s.hops.find? id = none)
    (hbound : List.Forall₂ (fun param v => s.frames.find? globals param = some v) params vs)
    {fuel : Nat} (hfuel : params.length < fuel) :
    Eval.evalAll fuel globals (argumentTrees i params) s = .ok vs s := by
  induction hbound generalizing i fuel with
  | nil =>
      obtain ⟨fuel, rfl⟩ := Nat.exists_eq_add_one.mpr hfuel
      rfl
  | @cons param v params vs hparam _ ih =>
      obtain ⟨fuel, rfl⟩ := Nat.exists_eq_add_one.mpr (Nat.zero_lt_of_lt hfuel)
      have hrest : params.length < fuel := Nat.lt_of_succ_lt_succ hfuel
      obtain ⟨more, rfl⟩ := Nat.exists_eq_add_one.mpr (Nat.zero_lt_of_lt hrest)
      have hmore := ih (fun id hid => hfresh id (Nat.le_of_succ_le hid)) hrest
      rw [argumentTrees, Eval.evalAll, eval_bind_ok (eval_read (hfresh i (Nat.le_refl i)) hparam more),
        eval_bind_ok hmore]
      rfl

theorem eval_callTree (hfresh : ∀ id, i ≤ id → s.hops.find? id = none)
    (hcallee : s.frames.find? globals callee = some v)
    (hbound : List.Forall₂ (fun param v => s.frames.find? globals param = some v) params vs)
    (harity : v.arity? = some vs.length) {fuel : Nat} (hfuel : params.length < fuel) :
    Eval.eval (fuel + 1) globals (callTree i callee params) s =
      Eval.invoke fuel closingToken v vs s := by
  obtain ⟨more, rfl⟩ := Nat.exists_eq_add_one.mpr (Nat.zero_lt_of_lt hfuel)
  have harguments := evalAll_argumentTrees (i := i + 1)
    (fun id hid => hfresh id (Nat.le_of_succ_le hid)) hbound hfuel
  rw [callTree, Eval.eval, eval_bind_ok (eval_read (hfresh i (Nat.le_refl i)) hcallee more),
    eval_bind_ok harguments, Eval.checkCall_eq_pure harity, pure_bind]

/-- The call in Lox, once its source is read and its arguments are converted. -/
theorem evaluateCall_eq {arguments : List HostObject} (hcallee : IsName callee)
    (hparams : ∀ param ∈ params, IsName param) (hdistinct : params.Nodup)
    (hunbound : ∀ param ∈ params, s.frames.find? globals param = none)
    (hglobals : 0 < s.frames.frames.size) (hfresh : ∀ id, s.nextNode ≤ id → s.hops.find? id = none)
    (hbound : s.frames.find? globals callee = some v) (harity : v.arity? = some vs.length)
    (hvalues : Eval.toValues arguments s = .ok vs s') (hcount : params.length = vs.length)
    (hmany : params.length ≤ maxArguments) {fuel : Nat} (hfuel : params.length < fuel) :
    evaluateCall (fuel + 1) callee params arguments s =
      ((fun v => .ok (.ofValue v)) <$> Eval.invoke fuel closingToken v vs)
        ((s'.bindAll params vs).numbering (s.nextNode + (params.length + 2))) := by
  have hkept := Eval.toValues_eq hvalues
  have hset : setGlobals params arguments s = .ok () (s'.bindAll params vs) := by
    have hset := setGlobals_eq hvalues (hcount.trans (Eval.length_toValues hvalues)) rfl
    rwa [← hkept] at hset
  have hnotMem : callee ∉ params := by
    intro hmem
    rw [hunbound callee hmem] at hbound
    cases hbound
  have hsize : 0 < s'.frames.frames.size := by
    rw [hkept]
    exact hglobals
  have hnext : (s'.bindAll params vs).nextNode = s.nextNode := by
    rw [bindAll_eq, hkept]
  have hhops : (s'.bindAll params vs).hops = s.hops := by
    rw [bindAll_eq, hkept]
  have hfound : (s'.bindAll params vs).frames.find? globals callee = some v := by
    rw [find?_bindAll_of_notMem s' hnotMem, hkept]
    exact hbound
  have hbinds := bindAll_binds hsize hdistinct hcount
  obtain ⟨htree, hnextId⟩ := compileExpression_call hcallee hparams hmany s.nextNode
  rw [← hnext] at htree hnextId
  rw [evaluateCall, eval_bind_ok hset, evaluate_eq htree, hnextId]
  generalize s'.bindAll params vs = t at hnext hhops hfound hbinds
  have heval := eval_callTree (s := t.numbering (t.nextNode + (params.length + 2))) (i := t.nextNode)
    (fun id hid => by
      rw [hnext] at hid
      exact (congrArg (·.find? id) hhops).trans (hfresh id hid))
    hfound hbinds harity hfuel
  rw [map_eq_pure_bind, map_eq_pure_bind, eval_bind_apply, heval, eval_bind_apply, hnext]

end Session

end Lox
