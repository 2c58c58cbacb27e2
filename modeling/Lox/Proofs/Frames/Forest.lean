import Lox.Proofs.Frames.Lookup
import Lox.Proofs.Links.History

/-!
# Forests of environments

Environments are made one inside another, and many of them may share the frames further out.  Whatever
was done with them before, a walk and a distance lead to the same variable.  A write goes to one variable
in one frame.  It is seen from those environments in which this variable is found, and from no others.
-/

namespace Lox

/-! ## Operations -/

inductive Operation where
  | define (name : String) (value : Value)
  | get (name : Token)
  | assign (name : Token) (value : Value)
  | ancestor (distance : Int)
  | getAt (distance : Int) (name : String)
  | assignAt (distance : Int) (name : String) (value : Value)

/-- An operation on an environment, whatever it gives. -/
def Operation.take (env : Environment) : Operation → Eval Unit
  | .define name value => Eval.define env name value
  | .get name => (fun _ => ()) <$> Eval.walk env name
  | .assign name value => Eval.walkAssign env name value
  | .ancestor distance =>
    match Frames.ancestor? env distance with
    | some _ => pure ()
    | none => Eval.stuck (.access .aboveRoot)
  | .getAt distance name => (fun _ => ()) <$> Eval.readAt env distance name
  | .assignAt distance name value => Eval.writeAt env distance name value

/-- A session whose frames were all made by operations on environments, with these environments.  An
operation that fails is followed by others as well. -/
inductive Forest : Session → List Environment → Prop where
  | bare : s.frames.frames = #[] → Forest s []
  /-- A new environment is inside one that there is, or inside none. -/
  | entered (enclosing : Environment) : Forest s envs → (enclosing = [] ∨ enclosing ∈ envs) →
      Eval.enter enclosing s = .ok env s' → Forest s' (env :: envs)
  | operated (env : Environment) (operation : Operation) : Forest s envs → env ∈ envs →
      Forest (leftBy (operation.take env s)) envs

/-- The environments of some frames.  Each has an innermost frame of its own, by which it is known, and
each is an outermost one or lies inside another of them. -/
structure Frames.Rooted {α : Type} (fs : Frames α) (made : Environment → Prop) : Prop where
  shape : ∀ {e}, made e → ∃ f outer, e = f :: outer ∧ f < fs.frames.size ∧ (outer = [] ∨ made outer)
  unique : ∀ {f outer outer'}, made (f :: outer) → made (f :: outer') → outer = outer'

section

variable {α : Type} {fs fs' : Frames α} {made : Environment → Prop} {e e' outer : Environment}
  {name : String} {f : FrameId} {s s' : Session}

namespace Frames.Rooted

theorem congr (h : fs.Rooted made) (hsize : fs'.frames.size = fs.frames.size) :
    fs'.Rooted made where
  shape he := hsize ▸ h.shape he
  unique := h.unique

theorem enter (h : fs.Rooted made) (houter : outer = [] ∨ made outer) :
    fs.push.Rooted fun e => e = fs.inner outer ∨ made e where
  shape := by
    rintro e (rfl | he)
    · refine ⟨fs.frames.size, outer, rfl, ?_, houter.imp_right .inr⟩
      rw [Frames.size_push]
      exact Nat.lt_succ_self _
    · obtain ⟨f, further, rfl, hf, hfurther⟩ := h.shape he
      refine ⟨f, further, rfl, ?_, hfurther.imp_right .inr⟩
      rw [Frames.size_push]
      exact Nat.lt_succ_of_lt hf
  unique := by
    -- No environment that there is has the new frame as its innermost one.
    have hnew : ∀ {further}, ¬ made (fs.frames.size :: further) := by
      intro further hmade
      obtain ⟨f, _, hcons, hf, -⟩ := h.shape hmade
      obtain rfl := (List.cons.inj hcons).1
      exact Nat.lt_irrefl _ hf
    rintro f further further' (hf | hf) (hf' | hf')
    · exact (List.cons.inj (hf.trans hf'.symm)).2
    · obtain ⟨rfl, -⟩ := List.cons.inj hf
      exact absurd hf' hnew
    · obtain ⟨rfl, -⟩ := List.cons.inj hf'
      exact absurd hf hnew
    · exact h.unique hf hf'

/-- Further out there are only environments of the forest, and nothing above the outermost one. -/
theorem drop (h : fs.Rooted made) (he : made e) (d : Nat) : e.drop d = [] ∨ made (e.drop d) := by
  induction d generalizing e with
  | zero => exact .inr he
  | succ d ih =>
      obtain ⟨f, outer, rfl, -, rfl | houter⟩ := h.shape he
      · exact .inl (List.drop_nil)
      · exact ih houter

theorem ancestor (h : fs.Rooted made) (he : made e) {d : Int} (hancestor : ancestor? e d = some e') :
    e' = [] ∨ made e' := by
  unfold ancestor? at hancestor
  split at hancestor
  · cases hancestor
    exact h.drop he _
  · cases hancestor

theorem reaches_iff (h : fs.Rooted made) (he : made e) (he' : made (f :: outer)) :
    fs.Reaches e (f :: outer) name ↔ fs.Meets e name f := by
  constructor
  · rintro ⟨d, hancestor, hclear⟩
    exact ⟨d, frameAt_eq_ok.mpr ⟨outer, hancestor⟩, hclear⟩
  · rintro ⟨d, hf, hclear⟩
    obtain ⟨further, hancestor⟩ := frameAt_eq_ok.mp hf
    have hmade := (h.ancestor he hancestor).resolve_left (List.cons_ne_nil _ _)
    rw [h.unique hmade he'] at hancestor
    exact ⟨d, hancestor, hclear⟩

end Frames.Rooted

theorem Operation.size_take (operation : Operation) (env : Environment) (s : Session) :
    (leftBy (operation.take env s)).frames.frames.size = s.frames.frames.size := by
  cases operation with
  | define name value =>
      cases env with
      | nil => rfl
      | cons f env => exact Frames.size_update _ _ _
  | get name =>
      rw [take, leftBy_map]
      cases hfind : s.frames.find? env name.lexeme with
      | some v => rw [Eval.walk_of_some hfind, leftBy]
      | none => rw [Eval.walk_of_none hfind, leftBy]
  | assign name value =>
      rw [take, Eval.walkAssign, eval_get_bind_apply]
      cases s.frames.home? env name.lexeme with
      | some f => exact Frames.size_update _ _ _
      | none => rfl
  | ancestor distance =>
      rw [take]
      cases Frames.ancestor? env distance <;> rfl
  | getAt distance name =>
      rw [take, leftBy_map, Eval.readAt, eval_get_bind_apply]
      cases s.frames.getAt env distance name <;> rfl
  | assignAt distance name value =>
      rw [take, Eval.writeAt]
      cases Frames.frameAt env distance with
      | ok f => exact Frames.size_update _ _ _
      | error i => rfl

theorem Forest.rooted {envs : List Environment} (h : Forest s envs) : s.frames.Rooted (· ∈ envs) := by
  -- Only `enter` makes an environment, and the innermost frame of that is a new one.
  induction h with
  | bare _ => exact ⟨nofun, nofun⟩
  | entered _ _ houter henter ih =>
      cases henter
      simp only [List.mem_cons]
      exact ih.enter houter
  | operated _ _ _ _ ih => exact ih.congr (Operation.size_take _ _ _)

/-- The environments of a running program. -/
theorem Session.Linked.rooted {L : Links} (hs : s.Linked L) : s.frames.Rooted L.Chain where
  shape he := by
    obtain ⟨f, outer, rfl⟩ := he.ne_nil
    refine ⟨f, outer, rfl, hs.frames ▸ he.lt_length, ?_⟩
    cases outer with
    | nil => exact .inl rfl
    | cons g outer => exact .inr (he.tail (List.cons_ne_nil _ _))
  unique he he' := he'.unique he

/-! ## Writes -/

/-- A session after a write of a variable.  Everything else is as it was before. -/
structure Session.Writes (s : Session) (f : FrameId) (name : String) (v : Value) (s' : Session) :
    Prop where
  rest : s' = { s with frames := s'.frames }
  frames : s.frames.Rebinds f name v s'.frames

/-- What walks find after a write: the new value of the variable from where it is seen, and what they
found before, be it a fault, for other names and from elsewhere. -/
structure Session.SeenFrom (s : Session) (made : Environment → Prop) (name : String) (v : Value)
    (Sees : Environment → Prop) (s' : Session) : Prop where
  new : ∀ {e} {x : Token}, made e → x.lexeme = name → Sees e → Eval.walk e x s' = .ok v s'
  old : ∀ {e} {x : Token}, made e → ¬ (x.lexeme = name ∧ Sees e) →
    givenBy (Eval.walk e x s') = givenBy (Eval.walk e x s)

theorem Eval.updateFrame_writes (hf : f < s.frames.frames.size) (name : String) (v : Value) :
    ∃ s', updateFrame f name v s = .ok () s' ∧ s.Writes f name v s' :=
  ⟨_, rfl, rfl, Frames.rebinds_update hf name v⟩

theorem Session.Writes.seenFrom {v : Value} (h : s.Writes f name v s') {Sees : Environment → Prop}
    (hsees : ∀ {e}, made e → (Sees e ↔ s.frames.Meets e name f)) :
    s.SeenFrom made name v Sees s' where
  new he hx hsee := by
    refine Eval.walk_of_some ?_
    rw [hx]
    exact h.frames.find?_of_meets ((hsees he).mp hsee)
  old he hother :=
    Eval.givenBy_walk (h.frames.find?_of_not_meets fun ⟨hx, hmeets⟩ => hother ⟨hx, (hsees he).mpr hmeets⟩)

/-! ## Walks and distances agree -/

/-- Variables in environments: walks and distances lead to the same one, and a write of it is seen from
where it is the one that is found. -/
structure Session.LookupsAgree (s : Session) (made : Environment → Prop) : Prop where
  /-- What a walk reads is the variable at the least distance at which a frame binds the name. -/
  get : ∀ {e} {name : Token} {d f}, made e → s.frames.Nearest e name.lexeme d f → ∃ v,
    (s.frames.bindings f).find? name.lexeme = some v ∧ Eval.walk e name s = .ok v s ∧
      Eval.readAt e d name.lexeme s = .ok v s
  /-- What a walk changes is this variable too.  It is seen from where the same one is found. -/
  assign : ∀ {e} {name : Token} {d f}, made e → s.frames.Nearest e name.lexeme d f → ∀ v, ∃ s',
    Eval.walkAssign e name v s = .ok () s' ∧ Eval.writeAt e d name.lexeme v s = .ok () s' ∧
      s.Writes f name.lexeme v s' ∧
        s.SeenFrom made name.lexeme v (fun e' => ∃ k, s.frames.Nearest e' name.lexeme k f) s'
  /-- Without such a distance a walk fails, and leaves the session as it is. -/
  undefined : ∀ {e} {name : Token}, made e → (∀ d f, ¬ s.frames.Nearest e name.lexeme d f) →
    ∃ error : RuntimeError, error.token = name ∧
      error.message = s!"Undefined variable '{name.lexeme}'." ∧
        Eval.walk e name s = .error (.fault error) s ∧
          ∀ v, Eval.walkAssign e name v s = .error (.fault error) s
  /-- A name is bound in the innermost frame.  This is seen from where the environment is reached before
  any other frame that binds the name. -/
  define : ∀ {e}, made e → ∀ (name : String) (v : Value), ∃ s' f, Frames.frameAt e 0 = .ok f ∧
    Eval.define e name v s = .ok () s' ∧ s.Writes f name v s' ∧
      s.SeenFrom made name v (fun e' => s.frames.Reaches e' e name) s'
  /-- Environments further out belong to the forest, but for the one above the outermost frame. -/
  outer : ∀ {e e'} {d : Int}, made e → Frames.ancestor? e d = some e' → e' = [] ∨ made e'
  /-- Hops can be taken in two parts. -/
  hops : ∀ {e}, made e → ∀ i j : Nat,
    Frames.ancestor? e (i + j : Nat) = (Frames.ancestor? e i).bind (Frames.ancestor? · j)

theorem Frames.Nearest.finds_iff {d : Nat} (h : fs.Nearest e name d f) :
    (∃ k, fs.Nearest e' name k f) ↔ fs.Meets e' name f :=
  exists_nearest_iff.trans (and_iff_left h.binds)

theorem Frames.Rooted.lookupsAgree (h : s.frames.Rooted made) : s.LookupsAgree made where
  get {e name d f} _ hnearest := by
    obtain ⟨v, hv⟩ := Bindings.binds_iff.mp hnearest.binds
    obtain ⟨outer, hdrop⟩ := hnearest.drop
    exact ⟨v, hv, Eval.walk_of_some (hnearest.find?_eq.trans hv), Eval.readAt_eq_ok hdrop hv⟩
  assign {e name d f} _ hnearest v := by
    obtain ⟨outer, hdrop⟩ := hnearest.drop
    obtain ⟨s', hupdate, hwrites⟩ :=
      Eval.updateFrame_writes (Frames.lt_size_of_binds hnearest.binds) name.lexeme v
    refine ⟨s', ?_, ?_, hwrites, hwrites.seenFrom fun _ => hnearest.finds_iff⟩
    · rw [Eval.walkAssign_of_nearest hnearest, hupdate]
    · rw [Eval.writeAt_eq hdrop, hupdate]
  undefined {e name} _ hnone := by
    have hhome := Frames.home?_eq_none hnone
    have hfind : s.frames.find? e name.lexeme = none := by
      rw [Frames.find?_eq_bind_home?, hhome]
      rfl
    exact ⟨⟨name, .undefinedVariable name.lexeme⟩, rfl, rfl, Eval.walk_of_none hfind,
      Eval.walkAssign_of_none hhome⟩
  define {e} he name v := by
    obtain ⟨f, outer, rfl, hf, -⟩ := h.shape he
    obtain ⟨s', hupdate, hwrites⟩ := Eval.updateFrame_writes hf name v
    exact ⟨s', f, rfl, hupdate, hwrites, hwrites.seenFrom fun he' => h.reaches_iff he' he⟩
  outer he hancestor := h.ancestor he hancestor
  hops _ i j := Frames.ancestor?_add _ i j

/-- It is so with the environments of the programs that a session has run. -/
theorem History.lookupsAgree {known : Value → Prop} (h : History (.honest False) s known) :
    ∃ L, s.Linked L ∧ s.LookupsAgree L.Chain := by
  obtain ⟨L, hs, -⟩ := h.exists_links
  exact ⟨L, hs, hs.rooted.lookupsAgree⟩

/-- In every forest of environments walks and distances lead to the same variables, and a write is seen
from the environments in which the variable is found. -/
theorem Forest.lookups_agree {envs : List Environment} (h : Forest s envs) :
    s.LookupsAgree (· ∈ envs) :=
  h.rooted.lookupsAgree

end

/-- A session that has nothing but some frames. -/
def framed (rows : List (Bindings Value)) : Session :=
  { Session.start {} [] fun _ => 0 with frames := ⟨rows.toArray⟩ }

/-- A name that is bound in the outermost frame and in another one. -/
def hidden : Token := ⟨.name, "x", .nil, 1⟩

/-- Two environments share a frame that hides a variable of the outermost one. -/
def siblings : Session :=
  framed [[("x", .bool true)], [("x", .nil)], [], [("y", .nil)]]

theorem forest_siblings : Forest siblings [[3, 1, 0], [2, 1, 0], [1, 0], [0]] := by
  have hempty : Forest (framed []) [] := .bare rfl
  have houtermost : Forest (framed [[("x", .bool true)]]) [[0]] :=
    .operated [0] (.define "x" (.bool true)) (.entered [] hempty (.inl rfl) rfl) (by decide)
  have hhiding : Forest (framed [[("x", .bool true)], [("x", .nil)]]) [[1, 0], [0]] :=
    .operated [1, 0] (.define "x" .nil) (.entered [0] houtermost (.inr (by decide)) rfl) (by decide)
  have hfirst : Forest (framed [[("x", .bool true)], [("x", .nil)], []]) [[2, 1, 0], [1, 0], [0]] :=
    .entered [1, 0] hhiding (.inr (by decide)) rfl
  exact .operated [3, 1, 0] (.define "y" .nil) (.entered [1, 0] hfirst (.inr (by decide)) rfl)
    (by decide)

theorem Forest.lookups_agree_siblings : ∃ envs, Forest siblings envs ∧
    siblings.LookupsAgree (· ∈ envs) ∧ siblings.frames.Nearest [2, 1, 0] "x" 1 1 ∧
      ∃ s', Eval.walkAssign [2, 1, 0] hidden (.bool false) siblings = .ok () s' ∧
        Eval.writeAt [2, 1, 0] 1 "x" (.bool false) siblings = .ok () s' ∧
          Eval.walk [3, 1, 0] hidden s' = .ok (.bool false) s' ∧
            givenBy (Eval.walk [0] hidden s') = .ok (.bool true) := by
  have hagree := forest_siblings.lookups_agree
  have hnearest : siblings.frames.Nearest [2, 1, 0] hidden.lexeme 1 1 := by
    refine ⟨rfl, by decide, fun k hk g hg => ?_⟩
    obtain rfl := Nat.lt_one_iff.mp hk
    cases hg
    decide
  obtain ⟨s', hassign, hwrite, -, hseen⟩ := hagree.assign (by decide) hnearest (.bool false)
  have hsister : ∃ k, siblings.frames.Nearest [3, 1, 0] hidden.lexeme k 1 := by
    refine hnearest.finds_iff.mpr (Frames.meets_cons.mpr (.inr ⟨by decide, ?_⟩))
    exact Frames.meets_cons.mpr (.inl rfl)
  have hapart : ¬ ∃ k, siblings.frames.Nearest [0] hidden.lexeme k 1 := by
    rw [hnearest.finds_iff, Frames.meets_cons]
    rintro (hsame | ⟨-, hmeets⟩)
    · cases hsame
    · exact Frames.not_meets_nil hmeets
  have hsees : Eval.walk [3, 1, 0] hidden s' = .ok (.bool false) s' :=
    hseen.new (by decide) rfl hsister
  have hkept : givenBy (Eval.walk [0] hidden s') = givenBy (Eval.walk [0] hidden siblings) :=
    hseen.old (by decide) fun h => hapart h.2
  exact ⟨_, forest_siblings, hagree, hnearest, s', hassign, hwrite, hsees, hkept⟩

end Lox
