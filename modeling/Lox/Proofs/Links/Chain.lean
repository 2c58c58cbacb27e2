import Mathlib.Data.List.Basic
import Lox.Proofs.Simulation.Value
import Lox.Session

/-!
# Links between frames and between classes

Every frame but the global one is enclosed in another frame, and a class may have a superclass.  Such a
link is made together with the frame or the class, and leads to an older one.  So a loop that goes from
link to link comes to an end, and it finds what the innermost frame or the nearest class has.
-/

namespace Lox

/-- What an identity was given to. -/
inductive Identified where
  | function (f : Closure)
  | classObject (cls : Class)

/-- The links that were made, in the order in which they were made. -/
structure Links where
  /-- The frame that each frame is enclosed in, if it is not the global one. -/
  enclosing : List (Option FrameId)
  /-- The function or class of each identity, with its environment or its superclass. -/
  objects : List Identified
  /-- How many arguments each native takes. -/
  natives : List Nat

namespace Links

/-- Links are added to, but those that are there stay. -/
protected structure le (L L' : Links) : Prop where
  enclosing : L.enclosing <+: L'.enclosing
  objects : L.objects <+: L'.objects
  natives : L.natives <+: L'.natives

instance : LE Links := ⟨Links.le⟩

variable {L L' L'' : Links}

theorem le_refl (L : Links) : L ≤ L :=
  ⟨List.prefix_refl _, List.prefix_refl _, List.prefix_refl _⟩

theorem le_trans (h : L ≤ L') (h' : L' ≤ L'') : L ≤ L'' :=
  ⟨h.enclosing.trans h'.enclosing, h.objects.trans h'.objects, h.natives.trans h'.natives⟩

theorem getElem?_of_prefix {α : Type} {l l' : List α} (h : l <+: l') {i : Nat} {a : α}
    (hi : l[i]? = some a) : l'[i]? = some a := by
  obtain ⟨more, rfl⟩ := h
  obtain ⟨hlt, -⟩ := List.getElem?_eq_some_iff.mp hi
  rw [List.getElem?_append_left hlt, hi]

theorem enclosing_mono (h : L ≤ L') {f : FrameId} {outer : Option FrameId}
    (hf : L.enclosing[f]? = some outer) : L'.enclosing[f]? = some outer :=
  getElem?_of_prefix h.enclosing hf

theorem objects_mono (h : L ≤ L') {id : ObjectId} {object : Identified}
    (hid : L.objects[id]? = some object) : L'.objects[id]? = some object :=
  getElem?_of_prefix h.objects hid

theorem natives_mono (h : L ≤ L') {id : NativeId} {arity : Nat}
    (hid : L.natives[id]? = some arity) : L'.natives[id]? = some arity :=
  getElem?_of_prefix h.natives hid

/-- The frame that a frame is enclosed in. -/
def outer (L : Links) (f : FrameId) : Option FrameId :=
  (L.enclosing[f]?).join

def class? (L : Links) (id : ObjectId) : Option Class :=
  match L.objects[id]? with
  | some (.classObject cls) => some cls
  | _ => none

def superclass (L : Links) (id : ObjectId) : Option ObjectId :=
  (L.class? id).bind fun cls => cls.superclass.map Class.id

def method (L : Links) (name : String) (id : ObjectId) : Option Closure :=
  (L.class? id).bind fun cls => cls.methods.find? name

theorem class?_eq {cls : Class} {id : ObjectId} (h : L.objects[id]? = some (.classObject cls)) :
    L.class? id = some cls := by
  unfold class?
  rw [h]

/-- The environments that follow the links from a frame out to the global one. -/
inductive Chain (L : Links) : Environment → Prop where
  | globals : L.enclosing[Session.globalFrame]? = some none → Chain L Session.globals
  | inner : L.enclosing[f]? = some (some g) → Chain L (g :: env) → Chain L (f :: g :: env)

/-- Links lead to what was made before. -/
structure WellFounded (L : Links) : Prop where
  globals : L.enclosing[Session.globalFrame]? = some none
  /-- Only the global frame is not enclosed in another one. -/
  enclosed : ∀ {f : FrameId}, L.enclosing[f]? = some none → f = Session.globalFrame
  older : ∀ {f g : FrameId}, L.enclosing[f]? = some (some g) → g < f
  function : ∀ {id : ObjectId} {f : Closure}, L.objects[id]? = some (.function f) →
    f.id = id ∧ L.Chain f.env
  superclass : ∀ {id : ObjectId} {cls : Class}, L.objects[id]? = some (.classObject cls) →
    cls.id = id ∧ ∀ base, cls.superclass = some base →
      base.id < id ∧ L.objects[base.id]? = some (.classObject base)
  methods : ∀ {id : ObjectId} {cls : Class}, L.objects[id]? = some (.classObject cls) →
    ∀ entry ∈ cls.methods, L.objects[entry.2.id]? = some (.function entry.2)

/-! ## Chains of frames -/

namespace Chain

variable {env env' : Environment} {f : FrameId}

theorem mono (hL : L ≤ L') (h : L.Chain env) : L'.Chain env := by
  induction h with
  | globals hroot => exact .globals (enclosing_mono hL hroot)
  | inner hlink _ ih => exact .inner (enclosing_mono hL hlink) ih

theorem ne_nil (h : L.Chain env) : ∃ f outer, env = f :: outer := by
  cases h with
  | globals _ => exact ⟨_, _, rfl⟩
  | inner _ _ => exact ⟨_, _, rfl⟩

theorem outer_eq (h : L.Chain (f :: env)) : L.outer f = env.head? := by
  unfold outer
  cases h with
  | globals hroot =>
      rw [hroot]
      rfl
  | inner hlink _ =>
      rw [hlink]
      rfl

theorem tail (h : L.Chain (f :: env)) (henv : env ≠ []) : L.Chain env := by
  cases h with
  | globals _ => exact absurd rfl henv
  | inner _ h => exact h

theorem descends (hL : L.WellFounded) (h : L.Chain env) : env.Pairwise (· > ·) := by
  induction h with
  | globals _ => exact List.pairwise_singleton _ _
  | inner hlink _ ih =>
      have holder := hL.older hlink
      refine List.pairwise_cons.mpr ⟨fun g hmem => ?_, ih⟩
      rcases List.mem_cons.mp hmem with rfl | hmem
      · exact holder
      · exact Nat.lt_trans ((List.pairwise_cons.mp ih).1 g hmem) holder

theorem getLast?_eq (h : L.Chain env) : env.getLast? = some Session.globalFrame := by
  induction h with
  | globals _ => rfl
  | inner _ _ ih => rwa [List.getLast?_cons_cons]

/-- An environment is given by its innermost frame. -/
theorem unique (h : L.Chain (f :: env)) (h' : L.Chain (f :: env')) : env' = env := by
  induction env generalizing f env' with
  | nil =>
      have houter := h.outer_eq.symm.trans h'.outer_eq
      cases env' with
      | nil => rfl
      | cons g env' => cases houter
  | cons g env ih =>
      have houter := h.outer_eq.symm.trans h'.outer_eq
      cases env' with
      | nil => cases houter
      | cons g' env' =>
          obtain rfl : g = g' := Option.some.inj houter
          rw [ih (h.tail (List.cons_ne_nil _ _)) (h'.tail (List.cons_ne_nil _ _))]

end Chain

theorem WellFounded.exists_chain (hL : L.WellFounded) {f : FrameId}
    (hf : f < L.enclosing.length) : ∃ env, L.Chain (f :: env) := by
  induction f using Nat.strong_induction_on with
  | _ f ih =>
      have hlink := List.getElem?_eq_getElem hf
      generalize L.enclosing[f] = outer at hlink
      cases outer with
      | none =>
          obtain rfl := hL.enclosed hlink
          exact ⟨[], .globals hL.globals⟩
      | some g =>
          have holder := hL.older hlink
          obtain ⟨env, hchain⟩ := ih g holder (Nat.lt_trans holder hf)
          exact ⟨g :: env, .inner hlink hchain⟩

theorem WellFounded.outer_lt (hL : L.WellFounded) {f g : FrameId} (h : L.outer f = some g) :
    g < f := by
  unfold outer at h
  exact hL.older (Option.join_eq_some_iff.mp h)

end Links

/-! ## Loops -/

/-- What a loop finds that goes from link to link for so many rounds.  It is `none` if the loop is still
going by then. -/
def follow {β : Type} (next : Nat → Option Nat) (found : Nat → Option β) :
    Nat → Option Nat → Option (Option β)
  | _, none => some none
  | 0, some _ => none
  | rounds + 1, some node =>
    match found node with
    | some b => some (some b)
    | none => follow next found rounds (next node)

section

variable {L : Links}

/-- A loop along a chain finds what the first of its frames has. -/
theorem Links.Chain.follow_eq (hL : L.WellFounded) {β : Type} (found : FrameId → Option β) {f : FrameId}
    {env : Environment} (h : L.Chain (f :: env)) {rounds : Nat} (hrounds : f < rounds) :
    follow L.outer found rounds (some f) = some ((f :: env).findSome? found) := by
  induction rounds generalizing f env with
  | zero => exact absurd hrounds (Nat.not_lt_zero _)
  | succ rounds ih =>
      rw [follow, List.findSome?_cons, h.outer_eq]
      cases found f with
      | some b => rfl
      | none =>
          cases env with
          | nil => cases rounds <;> rfl
          | cons g env =>
              have hless : g < rounds :=
                Nat.lt_of_lt_of_le (hL.outer_lt h.outer_eq) (Nat.le_of_lt_succ hrounds)
              exact ih (h.tail (List.cons_ne_nil _ _)) hless

theorem Frames.find?_eq_findSome? {α : Type} (fs : Frames α) (env : Environment) (name : String) :
    fs.find? env name = env.findSome? fun f => (fs.bindings f).find? name := by
  induction env with
  | nil => rfl
  | cons f env ih =>
      rw [Frames.find?, List.findSome?_cons, ih]
      cases (fs.bindings f).find? name <;> rfl

def Frames.binder? {α : Type} (fs : Frames α) (name : String) (f : FrameId) : Option FrameId :=
  if (fs.bindings f).binds name then some f else none

theorem Frames.home?_eq_findSome? {α : Type} (fs : Frames α) (env : Environment) (name : String) :
    fs.home? env name = env.findSome? (fs.binder? name) := by
  induction env with
  | nil => rfl
  | cons f env ih =>
      rw [Frames.home?, List.findSome?_cons, ih]
      unfold Frames.binder?
      split <;> rfl

/-! ## Chains of classes -/

def Class.chain : Class → List Class
  | .mk id name none own => [.mk id name none own]
  | .mk id name (some base) own => .mk id name (some base) own :: base.chain

theorem Class.chain_eq (cls : Class) :
    cls.chain = cls :: (match cls.superclass with
      | none => []
      | some base => base.chain) := by
  obtain ⟨id, name, _ | base, own⟩ := cls <;> rfl

theorem Class.findMethod?_eq (cls : Class) (name : String) :
    cls.findMethod? name = cls.chain.findSome? fun c => c.methods.find? name := by
  match cls with
  | .mk _ _ none own =>
      rw [Class.findMethod?, Class.chain, List.findSome?_cons, Class.methods]
      cases own.find? name <;> rfl
  | .mk _ _ (some base) own =>
      rw [Class.findMethod?, Class.chain, List.findSome?_cons, base.findMethod?_eq name,
        Class.methods]
      cases own.find? name <;> rfl

/-- The method that is found is the one that the nearest class which has the name declares. -/
theorem Class.findMethod?_eq_some {cls : Class} {name : String} {method : Closure} :
    cls.findMethod? name = some method ↔ ∃ nearer nearest further,
      cls.chain = nearer ++ nearest :: further ∧ nearest.methods.find? name = some method ∧
        ∀ c ∈ nearer, c.methods.find? name = none := by
  rw [cls.findMethod?_eq, List.findSome?_eq_some_iff]

/-- A class that was made with these links. -/
def Class.Linked (L : Links) (cls : Class) : Prop :=
  L.objects[cls.id]? = some (.classObject cls)

/-- The superclasses of a class were made before it, and so were theirs. -/
theorem Class.Linked.chain_descends (hL : L.WellFounded) : ∀ {cls : Class}, cls.Linked L →
    (cls.chain.map Class.id).Pairwise (· > ·) ∧ ∀ c ∈ cls.chain, c.Linked L
  | .mk id name none own, h => by
      refine ⟨List.pairwise_singleton _ _, fun c hmem => ?_⟩
      rw [Class.chain, List.mem_singleton] at hmem
      exact hmem ▸ h
  | .mk id name (some base) own, h => by
      obtain ⟨holder, hbase⟩ := (hL.superclass h).2 base rfl
      obtain ⟨hids, hlinked⟩ := chain_descends hL hbase
      refine ⟨List.pairwise_cons.mpr ⟨fun i hmem => ?_, hids⟩, List.forall_mem_cons.mpr ⟨h, hlinked⟩⟩
      obtain ⟨c, hc, rfl⟩ := List.mem_map.mp hmem
      rw [base.chain_eq] at hc hids
      rcases List.mem_cons.mp hc with rfl | hc
      · exact holder
      · have hless := (List.pairwise_cons.mp hids).1 c.id (List.mem_map_of_mem hc)
        exact Nat.lt_trans hless holder

/-- A loop along the superclasses finds what `findMethod?` finds. -/
theorem Class.Linked.follow_eq (hL : L.WellFounded) (name : String) {cls : Class}
    (h : cls.Linked L) {rounds : Nat} (hrounds : cls.id < rounds) :
    follow L.superclass (L.method name) rounds (some cls.id) = some (cls.findMethod? name) := by
  induction rounds generalizing cls with
  | zero => exact absurd hrounds (Nat.not_lt_zero _)
  | succ rounds ih =>
      have hclass : L.class? cls.id = some cls := Links.class?_eq h
      have hsuper : L.superclass cls.id = cls.superclass.map Class.id := by
        rw [Links.superclass, hclass]
        rfl
      have hmethod : L.method name cls.id = cls.methods.find? name := by
        rw [Links.method, hclass]
        rfl
      rw [follow, hmethod, hsuper, cls.findMethod?_eq, cls.chain_eq, List.findSome?_cons]
      cases cls.methods.find? name with
      | some found => rfl
      | none =>
          cases hbase : cls.superclass with
          | none => cases rounds <;> rfl
          | some base =>
              obtain ⟨holder, hlinked⟩ := (hL.superclass h).2 base hbase
              have hfound := ih hlinked (Nat.lt_of_lt_of_le holder (Nat.le_of_lt_succ hrounds))
              rw [base.findMethod?_eq] at hfound
              exact hfound

end

end Lox
