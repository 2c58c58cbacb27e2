import Lox.Proofs.Links.Visit

/-!
# Links in the history of a session

The links of a session are well-founded in every state that its history leads to, and at every moment
of the steps in between.  No step ever changes a link that was made.
-/

namespace Lox

section

variable {L : Links} {s s' : Session} {known : Value → Prop}

/-! ## Steps -/

theorem View.shared_le_linked (hknown : ∀ v, known v → v.Linked L) :
    View.shared known ≤ L.view :=
  ⟨fun hv => ⟨hv.1, hv.2.imp_left (hknown _)⟩, False.elim⟩

theorem Step.Follows.linked (hknown : ∀ v, known v → v.Linked L) {step : Step}
    (h : step.Follows (.honest False) known) : step.Linked L :=
  Step.Corresponds.mono (View.shared_le_linked hknown) h

theorem builds_stepTake (fuel : Nat) {step : Step} (hstep : step.Linked L) :
    Builds Answer.Linked L (step.take fuel) :=
  builds_take (allBuild fuel).proceeds hstep

theorem Session.Linked.remembers (hs : s.Linked L) {v : Value} (hv : s.Remembers v) : v.Linked L := by
  obtain ⟨f, hf, rfl⟩ := hv
  exact hs.holds.memory f hf

/-- On the way to an evaluation, links are only added, and so they are on the way from its end to the
end of the step. -/
theorem Visits.passes {step : Step} {fuel n : Nat} {task : Task} (h : Visits step fuel s n task s')
    (hs : s.Linked L) (hstep : step.Linked L) :
    ∃ L₁, L ≤ L₁ ∧ s'.Linked L₁ ∧ task.Linked L₁ ∧ ∀ L₂, L₁ ≤ L₂ → task.Ends L₂ n s' →
      ∃ L₃, L₂ ≤ L₃ ∧ (leftBy (step.take fuel s)).Linked L₃ := by
  -- The invariant goes both ways: links for the way in, and a continuation for the way back out.
  induction h with
  | starts hstarts =>
      obtain ⟨L₁, hL₁, hs₁, htask, hback⟩ := hstarts.passes fuel hs hstep
      refine ⟨L₁, hL₁, hs₁, htask, fun L₂ hL₂ hend => ?_⟩
      obtain ⟨L₃, hL₃, hend⟩ := hback L₂ hL₂ hend
      exact ⟨L₃, hL₃, hend.left⟩
  | calls _ hcalls ih =>
      obtain ⟨L₁, hL₁, hs₁, htask, hback⟩ := ih
      obtain ⟨L₂, hL₂, hs₂, hcalled, hreturn⟩ := hcalls.passes hs₁ htask
      refine ⟨L₂, Links.le_trans hL₁ hL₂, hs₂, hcalled, fun L₃ hL₃ hend => ?_⟩
      obtain ⟨L₄, hL₄, hend⟩ := hreturn L₃ hL₃ hend
      obtain ⟨L₅, hL₅, hleft⟩ := hback L₄ (Links.le_trans hL₂ (Links.le_trans hL₃ hL₄)) hend
      exact ⟨L₅, Links.le_trans hL₄ hL₅, hleft⟩

/-! ## What links say -/

/-- A session whose links are well-founded: whatever is in it leads to what was made before. -/
structure Session.Grounded (L : Links) (s : Session) : Prop where
  globals : L.Chain Session.globals
  /-- Every frame has its chain, and only one. -/
  chain : ∀ {f}, f < s.frames.frames.size → ∃! env : Environment, L.Chain (f :: env)
  /-- A chain leads to older and older frames, and it ends in the global one. -/
  older : ∀ {env}, L.Chain env → env.Pairwise (· > ·) ∧ env.getLast? = some Session.globalFrame
  /-- What is stored was made with these links. -/
  holds : s.Holds L
  function : ∀ {f : Closure}, f.Linked L → f.id < s.nextObject ∧ L.Chain f.env
  superclass : ∀ {cls base : Class}, cls.Linked L → cls.superclass = some base →
    base.Linked L ∧ base.id < cls.id ∧ cls.id < s.nextObject
  /-- From class to superclass, classes are older and older, too. -/
  inherited : ∀ {cls : Class}, cls.Linked L →
    (cls.chain.map Class.id).Pairwise (· > ·) ∧ ∀ c ∈ cls.chain, c.Linked L
  methods : ∀ {cls : Class}, cls.Linked L → ∀ entry ∈ cls.methods, entry.2.Linked L
  /-- The loop that looks a variable up ends, and finds what `find?` finds. -/
  get : ∀ {env}, L.Chain env → ∀ name,
    follow L.outer (fun f => (s.frames.bindings f).find? name) s.frames.frames.size env.head? =
      some (s.frames.find? env name)
  /-- The loop that looks for the frame to assign to ends, and finds what `home?` finds. -/
  assign : ∀ {env}, L.Chain env → ∀ name,
    follow L.outer (s.frames.binder? name) s.frames.frames.size env.head? =
      some (s.frames.home? env name)
  /-- The loop that looks for a method ends, and finds what `findMethod?` finds. -/
  findMethod : ∀ {cls : Class}, cls.Linked L → ∀ name,
    follow L.superclass (L.method name) s.nextObject (some cls.id) = some (cls.findMethod? name)
  /-- A method is found in the nearest class that declares it. -/
  nearest : ∀ {cls : Class}, cls.Linked L → ∀ name method, cls.findMethod? name = some method ↔
    ∃ nearer home further, cls.chain = nearer ++ home :: further ∧
      home.methods.find? name = some method ∧ ∀ c ∈ nearer, c.methods.find? name = none

theorem Session.Linked.lt_nextObject (hs : s.Linked L) {id : ObjectId} {object : Identified}
    (h : L.objects[id]? = some object) : id < s.nextObject := by
  rw [hs.objects]
  exact (List.getElem?_eq_some_iff.mp h).1

theorem Session.Linked.grounded (hs : s.Linked L) : s.Grounded L where
  globals := hs.chain_globals
  chain {f} hf := by
    rw [hs.frames] at hf
    obtain ⟨env, hchain⟩ := hs.wellFounded.exists_chain hf
    exact ⟨env, hchain, fun _ hother => hchain.unique hother⟩
  older hchain := ⟨hchain.descends hs.wellFounded, hchain.getLast?_eq⟩
  holds := hs.holds
  function {f} hf := ⟨hs.lt_nextObject hf, (hs.wellFounded.function hf).2⟩
  superclass {cls base} hcls hbase := by
    obtain ⟨hless, hlinked⟩ := (hs.wellFounded.superclass hcls).2 base hbase
    exact ⟨hlinked, hless, hs.lt_nextObject hcls⟩
  inherited hcls := hcls.chain_descends hs.wellFounded
  methods hcls := hs.wellFounded.methods hcls
  get {env} hchain name := by
    obtain ⟨f, outer, rfl⟩ := hchain.ne_nil
    rw [Frames.find?_eq_findSome?]
    exact hchain.follow_eq hs.wellFounded _ (hs.frames ▸ hchain.lt_length)
  assign {env} hchain name := by
    obtain ⟨f, outer, rfl⟩ := hchain.ne_nil
    rw [Frames.home?_eq_findSome?]
    exact hchain.follow_eq hs.wellFounded _ (hs.frames ▸ hchain.lt_length)
  findMethod hcls name := hcls.follow_eq hs.wellFounded name (hs.lt_nextObject hcls)
  nearest _ _ _ := Class.findMethod?_eq_some

end

/-! ## Histories -/

/-- The states that later steps lead to, with the values that the host knows by then. -/
inductive Continues (rules : HostRules) :
    Session → (Value → Prop) → Session → (Value → Prop) → Prop where
  | here : Continues rules s known s known
  | done : Step.Follows rules known step → step.take fuel s = .ok answer s₁ →
      Continues rules s₁ (fun v => answer.Gives v ∨ s₁.Remembers v ∨ known v) s' known' →
      Continues rules s known s' known'
  | interrupted : Step.Follows rules known step → step.take fuel s = .error interrupt s₁ →
      Continues rules s₁ (fun v => s₁.Remembers v ∨ known v) s' known' →
      Continues rules s known s' known'

/-- The links of a session between two steps, and at every moment of the next step. -/
structure Session.LinkedThroughout (rules : HostRules) (L : Links) (s : Session)
    (known : Value → Prop) : Prop where
  grounded : s.Grounded L
  learned : ∀ v, known v → v.Linked L
  /-- Links are only added up to the beginning of an evaluation, from there to its end, and from there
  to the end of the step. -/
  visits : ∀ {step fuel n task s₁}, Step.Follows rules known step → Visits step fuel s n task s₁ →
    ∃ L₁ L₂ L₃, L ≤ L₁ ∧ L₁ ≤ L₂ ∧ L₂ ≤ L₃ ∧ s₁.Grounded L₁ ∧ task.Linked L₁ ∧
      (task.leaves n s₁).Grounded L₂ ∧ (leftBy (step.take fuel s)).Grounded L₃

section

variable {L : Links} {s s' : Session} {known : Value → Prop}

theorem Session.Linked.throughout (hs : s.Linked L) (hknown : ∀ v, known v → v.Linked L) :
    s.LinkedThroughout (.honest False) L known where
  grounded := hs.grounded
  learned := hknown
  visits {step fuel n task s₁} hfollows hvisits := by
    obtain ⟨L₁, hL₁, hs₁, htask, hback⟩ := hvisits.passes hs (hfollows.linked hknown)
    obtain ⟨L₂, hL₂, hend⟩ := htask.ends hs₁ n
    obtain ⟨L₃, hL₃, hleft⟩ := hback L₂ hL₂ hend
    exact ⟨L₁, L₂, L₃, hL₁, hL₂, hL₃, hs₁.grounded, htask, hend.left.grounded, hleft.grounded⟩

/-- A step that was done leaves the session linked, and the host learns what was made with its links. -/
theorem Session.Linked.done (hs : s.Linked L) (hknown : ∀ v, known v → v.Linked L) {step : Step}
    (hfollows : step.Follows (.honest False) known) {fuel : Nat} {answer : Answer}
    (htake : step.take fuel s = .ok answer s') :
    ∃ L₁, L ≤ L₁ ∧ s'.Linked L₁ ∧ ∀ v, answer.Gives v ∨ s'.Remembers v ∨ known v → v.Linked L₁ := by
  obtain ⟨L₁, hL₁, hs₁, hanswer⟩ := (builds_stepTake fuel (hfollows.linked hknown)).reaches hs htake
  refine ⟨L₁, hL₁, hs₁, fun v hv => ?_⟩
  rcases hv with hgives | hkept | hold
  · exact hanswer v hgives
  · exact hs₁.remembers hkept
  · exact (hknown v hold).mono hL₁

theorem Session.Linked.interrupted (hs : s.Linked L) (hknown : ∀ v, known v → v.Linked L)
    {step : Step} (hfollows : step.Follows (.honest False) known) {fuel : Nat} {i : Interrupt}
    (htake : step.take fuel s = .error i s') :
    ∃ L₁, L ≤ L₁ ∧ s'.Linked L₁ ∧ ∀ v, s'.Remembers v ∨ known v → v.Linked L₁ := by
  obtain ⟨L₁, hL₁, hend⟩ := builds_stepTake fuel (hfollows.linked hknown) s hs
  rw [htake] at hend
  have hs₁ : s'.Linked L₁ := hend
  exact ⟨L₁, hL₁, hs₁, fun v hv => hv.elim hs₁.remembers fun hold => (hknown v hold).mono hL₁⟩

theorem Continues.linked {s₁ : Session} {known₁ : Value → Prop}
    (h : Continues (.honest False) s known s₁ known₁) (hs : s.Linked L)
    (hknown : ∀ v, known v → v.Linked L) :
    ∃ L₁, L ≤ L₁ ∧ s₁.Linked L₁ ∧ ∀ v, known₁ v → v.Linked L₁ := by
  induction h generalizing L with
  | here => exact ⟨L, Links.le_refl L, hs, hknown⟩
  | done hfollows htake _ ih =>
      obtain ⟨L₁, hL₁, hs₁, hknown₁⟩ := hs.done hknown hfollows htake
      obtain ⟨L₂, hL₂, hlater⟩ := ih hs₁ hknown₁
      exact ⟨L₂, Links.le_trans hL₁ hL₂, hlater⟩
  | interrupted hfollows htake _ ih =>
      obtain ⟨L₁, hL₁, hs₁, hknown₁⟩ := hs.interrupted hknown hfollows htake
      obtain ⟨L₂, hL₂, hlater⟩ := ih hs₁ hknown₁
      exact ⟨L₂, Links.le_trans hL₁ hL₂, hlater⟩

/-- The links of a session in which nothing has run. -/
def Links.start : Links := ⟨[none], [], [0, 0]⟩

theorem Session.linked_start (limits : Limits) (input : List Char) (readings : Nat → Float) :
    (Session.start limits input readings).Linked .start where
  wellFounded := by
    refine ⟨rfl, fun {f} hf => ?_, fun {f g} hf => ?_, nofun, nofun, nofun⟩
    · cases f with
      | zero => rfl
      | succ f => cases hf
    · cases f with
      | zero => cases hf
      | succ f => cases hf
  holds := by
    refine ⟨fun {f x v} hmem => ?_, fun {i x v} hmem => ?_, fun {i body} hi => ?_,
      List.forall_mem_nil _⟩
    · cases f with
      | zero =>
          change (x, v) ∈ [("clock", Value.native 0 0), ("readLine", Value.native 1 0)] at hmem
          rcases List.mem_cons.mp hmem with hclock | hmem
          · cases hclock
            rfl
          · cases List.mem_singleton.mp hmem
            rfl
      | succ f => cases hmem
    · cases hmem
    · match i with
      | 0 | 1 => cases hi
      | _ + 2 => cases hi
  frames := rfl
  objects := rfl
  natives := rfl

/-- Every state of a history is linked, and so are the values that the host knows. -/
theorem History.exists_links (h : History (.honest False) s known) :
    ∃ L, s.Linked L ∧ ∀ v, known v → v.Linked L := by
  induction h with
  | start _ => exact ⟨.start, Session.linked_start _ _ _, nofun⟩
  | done _ hfollows htake ih =>
      obtain ⟨L, hs, hknown⟩ := ih
      obtain ⟨L₁, -, hlater⟩ := hs.done hknown hfollows htake
      exact ⟨L₁, hlater⟩
  | interrupted _ hfollows htake ih =>
      obtain ⟨L, hs, hknown⟩ := ih
      obtain ⟨L₁, -, hlater⟩ := hs.interrupted hknown hfollows htake
      exact ⟨L₁, hlater⟩

/-- The links of a session are well-founded in every state that its history leads to, and nothing that
happens later changes one of them. -/
theorem History.links_stay (h : History (.honest False) s known) :
    ∃ L, s.LinkedThroughout (.honest False) L known ∧
      ∀ {s₁ known₁}, Continues (.honest False) s known s₁ known₁ →
        ∃ L₁, L ≤ L₁ ∧ s₁.LinkedThroughout (.honest False) L₁ known₁ := by
  obtain ⟨L, hs, hknown⟩ := h.exists_links
  refine ⟨L, hs.throughout hknown, fun hlater => ?_⟩
  obtain ⟨L₁, hL₁, hs₁, hknown₁⟩ := hlater.linked hs hknown
  exact ⟨L₁, hL₁, hs₁.throughout hknown₁⟩

end

/-- A class that is declared again below a class that it was the superclass of, an instance with a
method of its own in a field, and a function that can be found from its own environment. -/
def redeclaring : String :=
  "class A \x7b m() \x7b return this; \x7d \x7d
class B < A \x7b \x7d
class A < B \x7b n() \x7b fun f() \x7b return f; \x7d return f; \x7d \x7d
var a = A();
a.own = a.m;
var g = a.n();"

def redeclared : Session :=
  leftBy ((Step.run redeclaring).take 40 (.start {} [] fun _ => 0))

/-- The names of a class, its superclass, and so on. -/
def Value.lineage : Value → List String
  | .classObject cls => cls.chain.map Class.name
  | _ => []

def Value.surroundings : Value → Environment
  | .closure f => f.env
  | _ => []

theorem History.links_stay_redeclared : ∃ known, History (.honest False) redeclared known ∧
    ∃ L, redeclared.LinkedThroughout (.honest False) L known ∧
      (∃ cls, redeclared.frames.find? Session.globals "A" = some (.classObject cls) ∧
        cls.Linked L ∧ cls.chain.map Class.name = ["A", "B", "A"]) ∧
      ∃ f, redeclared.frames.find? Session.globals "g" = some (.closure f) ∧
        L.Chain f.env ∧ f.env = [5, 4, 2, 0] := by
  have hstart : History (.honest False) (.start {} [] fun _ => 0) fun _ => False :=
    .start nofun
  have hrun : (Step.run redeclaring).Follows (.honest False) fun _ => False := .run
  obtain ⟨known, hhistory⟩ := hstart.left hrun 40
  obtain ⟨L, hlinks, -⟩ := hhistory.links_stay
  have hfound : (redeclared.frames.find? Session.globals "A").map Value.lineage =
        some ["A", "B", "A"] ∧
      (redeclared.frames.find? Session.globals "g").map Value.surroundings =
        some [5, 4, 2, 0] := by
    set_option maxRecDepth 3000 in
    rw [redeclared, show redeclaring = String.ofList _ from rfl]
    simp -zeta only [Step.take, Eval.take, Eval.runProgram, compile, Scan.ofSource_ofList]
    decide +kernel
  obtain ⟨hclass, hfunction⟩ := hfound
  have hlinked : ∀ {x v}, redeclared.frames.find? Session.globals x = some v → v.Linked L := by
    intro x v hfind
    rw [Frames.find?_globals] at hfind
    exact hlinks.grounded.holds.bindings (Bindings.mem_of_find? hfind)
  refine ⟨known, hhistory, L, hlinks, ?_, ?_⟩
  · obtain ⟨v, hfind, hlineage⟩ := Option.map_eq_some_iff.mp hclass
    cases v with
    | classObject cls => exact ⟨cls, hfind, hlinked hfind, hlineage⟩
    | _ => cases hlineage
  · obtain ⟨v, hfind, hsurroundings⟩ := Option.map_eq_some_iff.mp hfunction
    cases v with
    | closure f =>
        exact ⟨f, hfind, (hlinks.grounded.function (hlinked hfind)).2, hsurroundings⟩
    | _ => cases hsurroundings

end Lox
