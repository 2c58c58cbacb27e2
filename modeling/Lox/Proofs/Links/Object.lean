import Lox.Proofs.Links.Action
import Lox.Proofs.Soundness.Visit

/-!
# Functions, classes and calls that are linked

A function is linked to the environment that it is made in, and a class to its superclass; both were
made before.  A method that is bound to an instance is a new function, in a frame that is linked to
the environment of the method.
-/

namespace Lox

section

variable {α : Type} {P : Links → α → Prop} {L : Links} {env : Environment} {cls : Class}
  {f method : Closure} {v this : Value} {x : Eval α}

/-! ## New functions and classes -/

theorem Session.Linked.identify {s : Session} (hs : s.Linked L) {object : Identified}
    (hL : (L.identify object).WellFounded) :
    Session.Linked (L.identify object) { s with nextObject := s.nextObject + 1 } where
  wellFounded := hL
  holds := by
    have hholds := hs.holds.mono (L.le_identify object)
    exact ⟨hholds.bindings, hholds.fields, hholds.hosts, hholds.memory⟩
  frames := hs.frames
  objects := by
    simp only [Links.identify, List.length_append, List.length_singleton, hs.objects]
  natives := hs.natives

theorem Links.identify_objects (L : Links) (object : Identified) :
    (L.identify object).objects[L.objects.length]? = some object :=
  List.getElem?_concat_length

theorem builds_newClosure (henv : L.Chain env) (role : Role) (decl : FunDecl) :
    Builds Closure.Linked L (Eval.newClosure env role decl) := by
  intro s hs
  let made : Closure := ⟨s.nextObject, decl, env, role⟩
  refine ⟨L.identify (.function made), L.le_identify _, ?_, ?_⟩
  · exact hs.identify (hs.wellFounded.function_made hs.objects henv)
  · change (L.identify (.function made)).objects[s.nextObject]? = some (.function made)
    rw [hs.objects]
    exact L.identify_objects _

def Eval.newClass (name : String) (base : Option Class) (own : Bindings Closure) : Eval Class := do
  return Class.mk (← newObject) name base own

theorem Eval.declareClass_eq (env : Environment) (name : Token) (base : Option (NodeId × Token))
    (methods : List FunDecl) :
    Eval.declareClass env name base methods = (do
      let base ← superclass env base
      define env name.lexeme .nil
      let inner ← methodEnv env base
      let own ← newMethods inner [] methods
      let cls ← newClass name.lexeme base own
      walkAssign env name (.classObject cls)) := by
  simp only [Eval.declareClass, Eval.newClass, bind_assoc, pure_bind]

theorem builds_newClass (name : String) {base : Option Class} {own : Bindings Closure}
    (hbase : ∀ cls, base = some cls → cls.Linked L) (hown : ∀ entry ∈ own, entry.2.Linked L) :
    Builds Class.Linked L (Eval.newClass name base own) := by
  intro s hs
  let made : Class := .mk s.nextObject name base own
  refine ⟨L.identify (.classObject made), L.le_identify _, ?_, ?_⟩
  · exact hs.identify (hs.wellFounded.class_made hs.objects hbase hown)
  · change (L.identify (.classObject made)).objects[s.nextObject]? = some (.classObject made)
    rw [hs.objects]
    exact L.identify_objects _

theorem builds_bindThis (hmethod : method.Linked L) (hthis : this.Linked L) :
    Builds Closure.Linked L (Eval.bindThis method this) := by
  refine .of_wellFounded fun hL => ?_
  unfold Eval.bindThis
  refine (builds_enter (hL.function hmethod).2).bind fun hL₁ henv => ?_
  refine (builds_define _ _ (hthis.mono hL₁)).bind fun hL₂ _ => ?_
  exact builds_newClosure (henv.mono hL₂) _ _

theorem builds_newMethods (henv : L.Chain env) (decls : List FunDecl) {own : Bindings Closure}
    (hown : ∀ entry ∈ own, entry.2.Linked L) :
    Builds (fun L own => ∀ entry ∈ own, Closure.Linked L entry.2) L
      (Eval.newMethods env own decls) := by
  induction decls generalizing L own with
  | nil => exact .pure hown
  | cons decl decls ih =>
      unfold Eval.newMethods
      refine (builds_newClosure henv _ decl).bind fun {L₁ method} hL₁ hmethod => ?_
      refine ih (henv.mono hL₁) fun entry hmem => ?_
      rcases Bindings.mem_set hmem with ⟨-, hnew⟩ | hold
      · rw [hnew]
        exact hmethod
      · exact (hown entry hold).mono hL₁

theorem builds_superclass (env : Environment) (base : Option (NodeId × Token)) :
    Builds (fun L base => ∀ cls, base = some cls → cls.Linked L) L (Eval.superclass env base) := by
  unfold Eval.superclass
  split
  · refine .pure ?_
    rintro _ ⟨⟩
  · next id name =>
      refine (builds_lookUp env id name).bind fun {L₁ v} _ hv => ?_
      split
      · refine .pure ?_
        rintro _ ⟨⟩
        exact hv
      · exact .throw _

theorem builds_methodEnv (henv : L.Chain env) {base : Option Class}
    (hbase : ∀ cls, base = some cls → cls.Linked L) :
    Builds Links.Chain L (Eval.methodEnv env base) := by
  unfold Eval.methodEnv
  split
  · exact .pure henv
  · next cls =>
      have hcls : (Value.classObject cls).Linked L := hbase cls rfl
      refine (builds_enter henv).bind fun hL₁ hinner => ?_
      exact (builds_define _ _ (hcls.mono hL₁)).bind fun hL₂ _ => .pure (hinner.mono hL₂)

theorem builds_declareClass (henv : L.Chain env) (name : Token) (base : Option (NodeId × Token))
    (methods : List FunDecl) :
    Builds (fun _ _ => True) L (Eval.declareClass env name base methods) := by
  rw [Eval.declareClass_eq]
  refine (builds_superclass env base).bind fun {L₁ base} hL₁ hbase => ?_
  have hnil : Value.nil.Linked L₁ := trivial
  refine (builds_define env name.lexeme hnil).bind fun {L₂ _} hL₂ _ => ?_
  have henv₂ := (henv.mono hL₁).mono hL₂
  have hbase₂ : ∀ cls, base = some cls → cls.Linked L₂ := fun cls hcls => (hbase cls hcls).mono hL₂
  refine (builds_methodEnv henv₂ hbase₂).bind fun {L₃ inner} hL₃ hinner => ?_
  refine (builds_newMethods hinner methods (List.forall_mem_nil _)).bind fun {L₄ own} hL₄ hown => ?_
  have hbase₄ : ∀ cls, base = some cls → cls.Linked L₄ :=
    fun cls hcls => ((hbase₂ cls hcls).mono hL₃).mono hL₄
  exact (builds_newClass _ hbase₄ hown).bind fun {L₅ cls} _ hcls =>
    builds_walkAssign env name (v := .classObject cls) hcls

/-! ## Instances -/

theorem Session.Linked.withFields {s : Session} (hs : s.Linked L) {fields : Array (Bindings Value)}
    (hfields : ∀ {i x v}, (x, v) ∈ fields.getD i [] → v.Linked L) :
    Session.Linked L { s with fields := fields } where
  wellFounded := hs.wellFounded
  holds := ⟨hs.holds.bindings, hfields, hs.holds.hosts, hs.holds.memory⟩
  frames := hs.frames
  objects := hs.objects
  natives := hs.natives

theorem builds_newInstance (hcls : cls.Linked L) :
    Builds Value.Linked L (Eval.newInstance cls) := by
  refine .modifyGet fun {s} hs => ⟨L, Links.le_refl L, hs.withFields fun {i x u} hmem => ?_, hcls⟩
  refine hs.holds.fields (i := i) (x := x) ?_
  simp only [Array.getD_eq_getD_getElem?, Array.getElem?_push] at hmem ⊢
  split at hmem
  · cases hmem
  · exact hmem

theorem builds_setField (i : InstanceId) (name : String) (hv : v.Linked L) :
    Builds (fun _ _ => True) L (Eval.setField i name v) := by
  refine .modify (fun {s} hs => hs.withFields fun {j x u} hmem => ?_) trivial
  have hfields : ∀ {j x u}, (x, u) ∈ s.fields.getD j [] → u.Linked L := hs.holds.fields
  simp only [Array.getD_eq_getD_getElem?, Array.getElem?_modify] at hmem hfields
  split at hmem
  · next hj =>
      subst hj
      cases hi : s.fields[i]? with
      | none =>
          rw [hi] at hmem
          cases hmem
      | some own =>
          rw [hi] at hmem
          rcases Bindings.mem_set hmem with ⟨-, rfl⟩ | hold
          · exact hv
          · refine hfields (j := i) (x := x) ?_
            rw [hi]
            exact hold
  · exact hfields hmem

theorem builds_property (i : InstanceId) (hcls : cls.Linked L) (name : Token) :
    Builds Value.Linked L (Eval.property i cls name) := by
  unfold Eval.property
  refine .get_bind fun {s} hs => ?_
  split
  · next v hv => exact .pure (hs.holds.fields (Bindings.mem_of_find? hv))
  · split
    · next method hmethod =>
        have hlinked := hcls.findMethod? hs.wellFounded hmethod
        have hthis : (Value.object i cls).Linked L := hcls
        exact (builds_bindThis hlinked hthis).bind fun _ hf => .pure hf
    · exact .throw _

theorem builds_superMethod (env : Environment) (id : NodeId) (name : Token) :
    Builds Value.Linked L (Eval.superMethod env id name) := by
  unfold Eval.superMethod
  refine .get_bind fun {s} hs => ?_
  split
  · exact .throw _
  · refine (builds_readAt _ _ _).bind fun {L₁ base} hL₁ hbase => ?_
    refine (builds_readAt _ _ _).bind fun {L₂ this} hL₂ hthis => ?_
    split
    · next cls =>
        have hcls : cls.Linked L₂ := Class.Linked.mono hL₂ hbase
        split
        · next method hmethod =>
            refine .of_wellFounded fun hwf => ?_
            exact (builds_bindThis (hcls.findMethod? hwf hmethod) hthis).bind fun _ hf => .pure hf
        · exact .throw _
    · exact .throw _

/-! ## Operators -/

theorem builds_operate (op : Token) {r : Except Fault Value} (hr : ∀ v, r = .ok v → v.isBasic) :
    Builds Value.Linked L (Eval.operate op r) := by
  cases r with
  | ok v => exact .pure (Value.isBasic_linked (hr v rfl))
  | error f => exact .throw _

theorem applyUnary_basic {op : Token} {right result : Value}
    (h : applyUnary op right = .ok result) : result.isBasic := by
  unfold applyUnary at h
  split at h
  · cases h
    trivial
  · split at h <;> cases h
    trivial
  · cases h

theorem arithmetic_basic {op : Token} {a b : Float} {result : Value}
    (h : arithmetic op a b = .ok result) : result.isBasic := by
  unfold arithmetic at h
  split at h <;> cases h <;> trivial

theorem applyBinary_basic {op : Token} {left right result : Value}
    (h : applyBinary op left right = .ok result) : result.isBasic := by
  unfold applyBinary at h
  split at h
  · cases h
    trivial
  · cases h
    trivial
  · unfold add at h
    split at h <;> cases h <;> trivial
  · split at h
    · exact arithmetic_basic h
    · cases h

/-! ## Calls -/

theorem builds_checkCall (site : Token) (callee : Value) (count : Nat) :
    Builds (fun _ _ => callee.arity? = some count) L (Eval.checkCall site callee count) := by
  unfold Eval.checkCall
  split
  · exact .throw _
  · next arity harity =>
      split
      · next hcount => exact .pure (hcount ▸ harity)
      · exact .throw _

theorem EndsLinked.nested {site : Token} {s : Session} (hroom : s.HasRoom)
    (hx : EndsLinked P L (x s.deeper)) : EndsLinked P L (Eval.nested site x s) := by
  rw [Eval.nested_of_room hroom]
  generalize x s.deeper = r at hx ⊢
  cases r with
  | ok a s₁ => exact ⟨hx.1.congr rfl rfl rfl rfl rfl, hx.2⟩
  | error i s₁ => exact Session.Linked.congr hx rfl rfl rfl rfl rfl

theorem builds_nested (site : Token) (hx : Builds P L x) : Builds P L (Eval.nested site x) := by
  intro s hs
  by_cases hroom : s.HasRoom
  · obtain ⟨L', hL, hend⟩ := hx s.deeper (hs.congr rfl rfl rfl rfl rfl)
    exact ⟨L', hL, hend.nested hroom⟩
  · obtain ⟨i, hfull⟩ := Eval.nested_of_not_room hroom site x
    rw [hfull]
    exact ⟨L, Links.le_refl L, hs⟩

theorem builds_defineAll (env : Environment) (params : List Token) {vs : List Value}
    (hvs : ValuesLinked L vs) : Builds (fun _ _ => True) L (Eval.defineAll env params vs) := by
  induction params generalizing L vs with
  | nil =>
      cases vs with
      | nil => exact .pure trivial
      | cons v vs => exact .throw _
  | cons param params ih =>
      cases vs with
      | nil => exact .throw _
      | cons v vs =>
          obtain ⟨hv, hmore⟩ : v.Linked L ∧ ValuesLinked L vs := List.forall_mem_cons.mp hvs
          unfold Eval.defineAll
          exact (builds_define env param.lexeme hv).bind fun hL _ => ih (hmore.mono hL)

theorem builds_open (hf : f.Linked L) {vs : List Value} (hvs : ValuesLinked L vs) :
    Builds Links.Chain L (Eval.open f vs) := by
  refine .of_wellFounded fun hL => ?_
  unfold Eval.open
  refine (builds_enter (hL.function hf).2).bind fun {L₁ env} hL₁ henv => ?_
  exact (builds_defineAll env _ (hvs.mono hL₁)).bind fun hL₂ _ => .pure (henv.mono hL₂)

theorem builds_openInitializer (hcls : cls.Linked L) (hmethod : method.Linked L) {vs : List Value}
    (hvs : ValuesLinked L vs) :
    Builds Links.Chain L (Eval.openInitializer cls method vs) := by
  unfold Eval.openInitializer
  refine (builds_newInstance hcls).bind fun {L₁ made} hL₁ hmade => ?_
  refine (builds_bindThis (hmethod.mono hL₁) hmade).bind fun {L₂ f} hL₂ hf => ?_
  exact builds_open hf ((hvs.mono hL₁).mono hL₂)

/-! ## Exchange with the host -/

theorem builds_readClock : Builds Value.Linked L Eval.readClock :=
  .modifyGet fun hs => ⟨L, Links.le_refl L, hs.congr rfl rfl rfl rfl rfl, trivial⟩

theorem builds_readLine : Builds Value.Linked L Eval.readLine := by
  have htake : Builds (fun _ _ => True) L (modifyGet Session.takeLine : Eval (List Char)) :=
    .modifyGet fun hs => ⟨L, Links.le_refl L, hs.congr rfl rfl rfl rfl rfl, trivial⟩
  exact htake.bind fun _ _ => .pure trivial

theorem builds_printLine (line : String) :
    Builds (fun _ _ => True) L (modify (Session.printLine line) : Eval Unit) :=
  .modify (fun hs => hs.congr rfl rfl rfl rfl rfl) trivial

theorem builds_beginRun : Builds (fun _ _ => True) L (modify Session.beginRun : Eval Unit) :=
  .modify (fun hs => hs.congr rfl rfl rfl rfl rfl) trivial

theorem Session.Linked.hire {s : Session} (hs : s.Linked L) {arity : Nat}
    {body : List HostForm → HostAction} (hbody : HostBodyLinked L arity body) :
    Session.Linked (L.hire arity) { s with natives := s.natives.push (.host body) } where
  wellFounded := hs.wellFounded.hire arity
  holds := by
    have hholds := hs.holds.mono (L.le_hire arity)
    refine ⟨hholds.bindings, hholds.fields, fun {i other} hi => ?_, hholds.memory⟩
    rw [Array.getElem?_push] at hi
    split at hi
    · next hlast =>
        cases hi
        refine ⟨arity, ?_, hbody.mono (L.le_hire arity)⟩
        rw [hlast, hs.natives]
        exact List.getElem?_concat_length
    · exact hholds.hosts hi
  frames := hs.frames
  objects := hs.objects
  natives := by
    simp only [Links.hire, Array.size_push, List.length_append, List.length_singleton, hs.natives]

theorem builds_nearestNumber (number : Option Float) :
    Builds Value.Linked L (Eval.nearestNumber number) := by
  cases number with
  | some x => exact .pure trivial
  | none => exact .throw _

theorem builds_hire {arity : Nat} {body : List HostForm → HostAction}
    (hbody : HostBodyLinked L arity body) : Builds Value.Linked L (Eval.hire arity body) := by
  refine .modifyGet fun {s} hs => ⟨L.hire arity, L.le_hire arity, hs.hire hbody, ?_⟩
  change (L.natives ++ [arity])[s.natives.size]? = some arity
  rw [hs.natives]
  exact List.getElem?_concat_length

theorem builds_toValue {o : HostObject} (ho : o.Linked L) :
    Builds Value.Linked L (Eval.toValue o) := by
  cases o with
  | form f =>
      cases ho with
      | form hf =>
          rcases Eval.toValue_cases (.form f) with
            ⟨_, hform, hvalue⟩ | ⟨_, hform, -⟩ | ⟨_, _, hform, -⟩ | ⟨-, hrefused⟩
          · cases hform
            rw [hvalue]
            exact .pure hf.value.linked
          · cases hform
          · cases hform
          · rw [hrefused]
            exact .throw _
  | integer n => exact builds_nearestNumber _
  | foreign sort => exact .throw _
  | function arity body => exact builds_hire ho.body

theorem builds_toValues {os : List HostObject} (hos : ObjectsLinked L os) :
    Builds (fun L vs => vs.length = os.length ∧ ValuesLinked L vs) L
      (Eval.toValues os) := by
  induction os generalizing L with
  | nil => exact .pure ⟨rfl, .nil⟩
  | cons o os ih =>
      cases hos with
      | cons ho hos =>
          unfold Eval.toValues
          refine (builds_toValue ho).bind fun {L₁ v} hL₁ hv => ?_
          refine (ih (ObjectsLinked.mono hL₁ hos)).bind fun {L₂ vs} hL₂ hvs => ?_
          exact .pure ⟨congrArg (· + 1) hvs.1, .cons (hv.mono hL₂) hvs.2⟩

/-- Arguments of a call: values that were made with these links, and as many as the callee takes. -/
def ArgumentsLinked (L : Links) (callee : Value) (vs : List Value) : Prop :=
  callee.arity? = some vs.length ∧ ValuesLinked L vs

theorem builds_hostArguments (callee : Value) {os : List HostObject} (hos : ObjectsLinked L os) :
    Builds (fun L vs => ArgumentsLinked L callee vs) L (Eval.hostArguments callee os) := by
  unfold Eval.hostArguments
  split
  · exact .throw _
  · next arity harity =>
      split
      · next hcount =>
          refine (builds_toValues hos).imp fun _ h => ⟨?_, h.2⟩
          rw [harity, h.1, hcount]
      · exact .throw _

theorem builds_keep {fs : List HostForm} (hfs : FormsLinked L fs) :
    Builds (fun _ _ => True) L (modify fun s => { s with memory := fs } : Eval Unit) :=
  .modify (fun hs => ⟨hs.wellFounded, ⟨hs.holds.bindings, hs.holds.fields, hs.holds.hosts, hfs⟩,
    hs.frames, hs.objects, hs.natives⟩) trivial

/-! ## Globals -/

theorem builds_getGlobal (name : String) :
    Builds (fun L f => f.value.Linked L) L (Eval.getGlobal name) := by
  refine .get_bind fun {s} hs => .pure ?_
  rw [HostForm.value_ofValue]
  cases hfind : s.frames.find? Session.globals name with
  | none => trivial
  | some v => exact hs.find? hfind

theorem builds_setGlobal (name : String) {o : HostObject} (ho : o.Linked L) :
    Builds (fun _ _ => True) L (Eval.setGlobal name o) :=
  (builds_toValue ho).bind fun _ hv => builds_define _ name hv

end

end Lox
