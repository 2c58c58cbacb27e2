import Lox.Proofs.Links.State
import Lox.Proofs.Simulation.Exchange

/-!
# Steps that make links

A frame is linked when it is made, and so is a function or a class.  No other step makes or changes a
link: what is bound to a name, in a frame or in an instance, is not one.
-/

namespace Lox

/-! ## More links -/

namespace Links

def enclose (L : Links) (outer : FrameId) : Links :=
  { L with enclosing := L.enclosing ++ [some outer] }

def identify (L : Links) (object : Identified) : Links :=
  { L with objects := L.objects ++ [object] }

def hire (L : Links) (arity : Nat) : Links :=
  { L with natives := L.natives ++ [arity] }

variable {L : Links}

theorem le_enclose (L : Links) (outer : FrameId) : L ≤ L.enclose outer :=
  ⟨List.prefix_append _ _, List.prefix_refl _, List.prefix_refl _⟩

theorem le_identify (L : Links) (object : Identified) : L ≤ L.identify object :=
  ⟨List.prefix_refl _, List.prefix_append _ _, List.prefix_refl _⟩

theorem le_hire (L : Links) (arity : Nat) : L ≤ L.hire arity :=
  ⟨List.prefix_refl _, List.prefix_refl _, List.prefix_append _ _⟩

theorem getElem?_concat {α : Type} {l : List α} {a b : α} {i : Nat}
    (h : (l ++ [a])[i]? = some b) : l[i]? = some b ∨ (i = l.length ∧ b = a) := by
  rw [List.getElem?_append] at h
  split at h
  · exact .inl h
  · next hge =>
      obtain ⟨hlt, hb⟩ := List.getElem?_eq_some_iff.mp h
      have hi : i = l.length := by
        rw [List.length_singleton] at hlt
        omega
      exact .inr ⟨hi, by simpa using hb.symm⟩

theorem WellFounded.enclose (hL : L.WellFounded) {g : FrameId} (hg : g < L.enclosing.length) :
    (L.enclose g).WellFounded where
  globals := enclosing_mono (L.le_enclose g) hL.globals
  enclosed hf := by
    rcases getElem?_concat hf with hold | ⟨-, hnew⟩
    · exact hL.enclosed hold
    · cases hnew
  older hf := by
    rcases getElem?_concat hf with hold | ⟨rfl, hnew⟩
    · exact hL.older hold
    · cases hnew
      exact hg
  function hf := (hL.function hf).imp_right (Chain.mono (L.le_enclose g))
  superclass := hL.superclass
  methods := hL.methods

theorem WellFounded.function_made (hL : L.WellFounded) {f : Closure}
    (hid : f.id = L.objects.length) (henv : L.Chain f.env) :
    (L.identify (.function f)).WellFounded where
  globals := hL.globals
  enclosed := hL.enclosed
  older := hL.older
  function hf := by
    rcases getElem?_concat hf with hold | ⟨rfl, hnew⟩
    · exact (hL.function hold).imp_right (Chain.mono (L.le_identify _))
    · cases hnew
      exact ⟨hid, henv.mono (L.le_identify _)⟩
  superclass hcls := by
    rcases getElem?_concat hcls with hold | ⟨-, hnew⟩
    · refine (hL.superclass hold).imp_right fun h base hbase => ?_
      exact (h base hbase).imp_right (objects_mono (L.le_identify _))
    · cases hnew
  methods hcls entry hmem := by
    rcases getElem?_concat hcls with hold | ⟨-, hnew⟩
    · exact objects_mono (L.le_identify _) (hL.methods hold entry hmem)
    · cases hnew

theorem WellFounded.class_made (hL : L.WellFounded) {cls : Class}
    (hid : cls.id = L.objects.length) (hbase : ∀ base, cls.superclass = some base → base.Linked L)
    (hmethods : ∀ entry ∈ cls.methods, entry.2.Linked L) :
    (L.identify (.classObject cls)).WellFounded where
  globals := hL.globals
  enclosed := hL.enclosed
  older := hL.older
  function hf := by
    rcases getElem?_concat hf with hold | ⟨-, hnew⟩
    · exact (hL.function hold).imp_right (Chain.mono (L.le_identify _))
    · cases hnew
  superclass hcls := by
    rcases getElem?_concat hcls with hold | ⟨rfl, hnew⟩
    · refine (hL.superclass hold).imp_right fun h base hbase => ?_
      exact (h base hbase).imp_right (objects_mono (L.le_identify _))
    · cases hnew
      refine ⟨hid, fun base hsuper => ?_⟩
      have hlinked := hbase base hsuper
      obtain ⟨hlt, -⟩ := List.getElem?_eq_some_iff.mp hlinked
      exact ⟨hlt, objects_mono (L.le_identify _) hlinked⟩
  methods hcls entry hmem := by
    rcases getElem?_concat hcls with hold | ⟨-, hnew⟩
    · exact objects_mono (L.le_identify _) (hL.methods hold entry hmem)
    · cases hnew
      exact objects_mono (L.le_identify _) (hmethods entry hmem)

theorem WellFounded.hire (hL : L.WellFounded) (arity : Nat) : (L.hire arity).WellFounded where
  globals := hL.globals
  enclosed := hL.enclosed
  older := hL.older
  function hf := (hL.function hf).imp_right (Chain.mono (L.le_hire arity))
  superclass := hL.superclass
  methods := hL.methods

theorem Chain.lt_length {f : FrameId} {env : Environment} (h : L.Chain (f :: env)) :
    f < L.enclosing.length := by
  cases h with
  | globals hroot => exact (List.getElem?_eq_some_iff.mp hroot).1
  | inner hlink _ => exact (List.getElem?_eq_some_iff.mp hlink).1

end Links

section

variable {L : Links} {s : Session}

/-! ## Frames -/

theorem Session.Linked.update (hs : s.Linked L) (frame : FrameId) (name : String) {v : Value}
    (hv : v.Linked L) :
    Session.Linked L { s with frames := s.frames.update frame (·.set name v) } where
  wellFounded := hs.wellFounded
  holds := by
    refine ⟨fun {f x u} hmem => ?_, hs.holds.fields, hs.holds.hosts, hs.holds.memory⟩
    rw [Frames.bindings_update] at hmem
    split at hmem
    · rcases Bindings.mem_set hmem with ⟨-, rfl⟩ | hmem
      · exact hv
      · exact hs.holds.bindings hmem
    · exact hs.holds.bindings hmem
  frames := (Frames.size_update _ _ _).trans hs.frames
  objects := hs.objects
  natives := hs.natives

theorem builds_updateFrame (frame : FrameId) (name : String) {v : Value} (hv : v.Linked L) :
    Builds (fun _ _ => True) L (Eval.updateFrame frame name v) :=
  .modify (fun hs => hs.update frame name hv) trivial

theorem builds_define (env : Environment) (name : String) {v : Value} (hv : v.Linked L) :
    Builds (fun _ _ => True) L (Eval.define env name v) := by
  refine .modify (fun {s} hs => ?_) trivial
  cases env with
  | nil => exact hs
  | cons frame env => exact hs.update frame name hv

theorem builds_enter {env : Environment} (henv : L.Chain env) :
    Builds Links.Chain L (Eval.enter env) := by
  refine .modifyGet fun {s} hs => ?_
  obtain ⟨g, outer, rfl⟩ := henv.ne_nil
  have hL := L.le_enclose g
  refine ⟨L.enclose g, hL, ?_, ?_⟩
  · refine ⟨hs.wellFounded.enclose henv.lt_length, ?_, ?_, hs.objects, hs.natives⟩
    · have hholds := hs.holds.mono hL
      refine ⟨fun {f x v} hmem => ?_, hholds.fields, hholds.hosts, hholds.memory⟩
      rw [Frames.bindings_push] at hmem
      exact hholds.bindings hmem
    · simp only [Frames.size_push, Links.enclose, List.length_append, List.length_singleton, hs.frames]
  · change (L.enclose g).Chain (s.frames.frames.size :: g :: outer)
    rw [hs.frames]
    refine .inner ?_ (henv.mono hL)
    simp only [Links.enclose, List.getElem?_concat_length]

theorem Session.Linked.find? (hs : s.Linked L) {env : Environment} {name : String} {v : Value}
    (h : s.frames.find? env name = some v) : v.Linked L := by
  rw [Frames.find?_eq_findSome?] at h
  obtain ⟨f, -, hf⟩ := List.exists_of_findSome?_eq_some h
  exact hs.holds.bindings (Bindings.mem_of_find? hf)

theorem builds_walk (env : Environment) (name : Token) :
    Builds Value.Linked L (Eval.walk env name) := by
  unfold Eval.walk
  refine .get_bind fun {s} hs => ?_
  split
  · next v hv => exact .pure (hs.find? hv)
  · exact .throw _

theorem builds_walkAssign (env : Environment) (name : Token) {v : Value} (hv : v.Linked L) :
    Builds (fun _ _ => True) L (Eval.walkAssign env name v) := by
  unfold Eval.walkAssign
  refine .get_bind fun {s} _ => ?_
  split
  · exact builds_updateFrame _ _ hv
  · exact .throw _

theorem builds_readAt (env : Environment) (distance : Int) (name : String) :
    Builds Value.Linked L (Eval.readAt env distance name) := by
  unfold Eval.readAt
  refine .get_bind fun {s} hs => ?_
  cases hget : s.frames.getAt env distance name with
  | ok v =>
      refine .pure ?_
      unfold Frames.getAt at hget
      split at hget
      · cases hget
      · split at hget
        · next hfind =>
            cases hget
            exact hs.holds.bindings (Bindings.mem_of_find? hfind)
        · cases hget
  | error e => exact .throw _

theorem builds_writeAt (env : Environment) (distance : Int) (name : String) {v : Value}
    (hv : v.Linked L) : Builds (fun _ _ => True) L (Eval.writeAt env distance name v) := by
  unfold Eval.writeAt
  cases Frames.frameAt env distance with
  | ok frame => exact builds_updateFrame frame name hv
  | error e => exact .throw _

theorem builds_lookUp (env : Environment) (id : NodeId) (name : Token) :
    Builds Value.Linked L (Eval.lookUp env id name) := by
  unfold Eval.lookUp
  refine .get_bind fun {s} _ => ?_
  split
  · exact builds_readAt _ _ _
  · exact builds_walk _ _

theorem builds_assign (env : Environment) (id : NodeId) (name : Token) {v : Value}
    (hv : v.Linked L) : Builds (fun _ _ => True) L (Eval.assign env id name v) := by
  unfold Eval.assign
  refine .get_bind fun {s} _ => ?_
  split
  · exact builds_writeAt _ _ _ hv
  · exact builds_walkAssign _ _ hv

end

end Lox
