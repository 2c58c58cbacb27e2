import Lox.Proofs.Soundness.Placement

/-!
# Accepted code never gets stuck

Whatever was done with a session before, a program or expression that passed its checks ends with a
result or a fault, or goes on forever.  The reason is that each of its parts is evaluated in an
environment with one frame for each scope that resolution had open at that part.
-/

namespace Lox

/-! ## Environments and scopes -/

/-- An environment with a frame for each of some scopes, inside of the global frame.  Each frame binds
what its scope has initialised, and is newer than the frames around it. -/
structure Environment.Fits (env : Environment) (s : Session) (σ : Scopes) : Prop where
  length : env.length = σ.length + 1
  globals : env.getLast? = some Session.globalFrame
  newer : env.Pairwise (· > ·)
  frame : ∀ {k : Nat} {scope : Scope}, σ[k]? = some scope →
    ∃ f, Frames.frameAt env k = .ok f ∧ f < s.frames.frames.size ∧
      ∀ {x}, scope.find? x = some true → (s.frames.bindings f).binds x = true

/-- The references of a part itself lead to the innermost scopes that declare their names.  Those that
are read are initialised there. -/
def Part.Refers (s : Session) (σ : Scopes) : Part → Prop
  | .expr (.read id name) => s.hops.find? id = σ.hops? name.lexeme ∧
      ∀ k, σ.hops? name.lexeme = some k → σ.Holds k name.lexeme
  | .expr (.assign id name _) => s.hops.find? id = σ.hops? name.lexeme
  | .expr (.self id _) => ∃ k, s.hops.find? id = some k ∧ σ.Holds k "this"
  | .expr (.super id _ _) =>
      ∃ k, s.hops.find? id = some (k + 1) ∧ σ.Holds (k + 1) "super" ∧ σ.Holds k "this"
  | .stmt (.classDecl _ (some (id, name)) _) => s.hops.find? id = σ.hops? name.lexeme ∧
      ∀ k, σ.hops? name.lexeme = some k → σ.Holds k name.lexeme
  | _ => True

/-- A part of an accepted program or expression that is about to be evaluated in an environment. -/
structure Situated (s : Session) (env : Environment) (part root : Part) (c : Context) (σ : Scopes) :
    Prop where
  accepted : root.Accepted
  reaches : Reaches root c σ part
  /-- The session knows what resolution found in the program. -/
  recorded : ∀ id ∈ root.ids, s.hops.find? id = hopsOf (root.resolve {} []).references id
  fits : env.Fits s σ
  refers : part.Refers s σ

section

variable {w : World} {env : Environment} {σ : Scopes} {ρs : List (String → String)}

theorem Covers.getLast?_eq (h : Covers w env σ ρs) : env.getLast? = some Session.globalFrame := by
  induction h with
  | globals => rfl
  | inner _ _ _ _ _ _ ih =>
      rw [List.getLast?_cons, ih]
      rfl

theorem Covers.pairwise (h : Covers w env σ ρs) : env.Pairwise (· > ·) := by
  induction h with
  | globals => exact List.pairwise_singleton _ _
  | inner _ hnewest _ _ _ _ ih => exact List.pairwise_cons.mpr ⟨hnewest, ih⟩

theorem Covers.fits {ℓ : Likeness} {s : Session} (h : Covers w env σ ρs)
    (hs : Session.Alike ℓ w s s) : env.Fits s σ where
  length := h.length_eq
  globals := h.getLast?_eq
  newer := h.pairwise
  frame hscope := by
    obtain ⟨f, outer, hframe⟩ := h.frame hscope
    refine ⟨f, Frames.frameAt_eq hframe.drop, hs.frames.size ▸ hframe.lt, fun hx => ?_⟩
    exact hs.frames.declared (hframe.declared hx)

theorem Checked.refers {table : NodeId → Option Nat} {c : Context} {part : Part} {s : Session}
    (h : Checked table c σ part) (htable : ∀ id ∈ part.ids, s.hops.find? id = table id) :
    part.Refers s σ := by
  unfold Part.Refers
  split
  · rw [htable _ List.mem_cons_self]
    exact h.read
  · rw [htable _ (List.mem_append_right _ List.mem_cons_self)]
    exact h.assign
  · rw [htable _ List.mem_cons_self]
    exact h.self.2
  · rw [htable _ List.mem_cons_self]
    exact h.super
  · rw [htable _ List.mem_cons_self]
    exact h.superclass
  · trivial

theorem Session.Alike.situated {strict : Prop} {s : Session}
    (hs : Session.Alike (.exact strict) w s s) {code : Code} {c : Context} {part : Part}
    (h : Sited w code c σ ρs env part) : Situated s env part code.part c σ where
  accepted := hs.genuine h.accepted
  reaches := h.reaches
  recorded id hid := by
    rw [hs.recorded.table h.accepted hid, code.checked.sound.recorded id hid]
  fits := h.covers.fits hs
  refers := h.checked.refers fun id hid => hs.recorded.table h.accepted (h.id_mem hid)

end

/-! ## Ends of evaluations -/

section

variable {α : Type}

/-- Evaluations that come to an end: with a result, or with a fault.  There are mistakes of the host only
if it is not held to what Lox can take. -/
inductive Ends (strict : Prop) : EStateM.Result Interrupt Session α → Prop where
  | ok : Ends strict (.ok a s)
  | fault : e.fault.Proper → Ends strict (.error (.fault e) s)
  | host : ¬ strict → Ends strict (.error (.host e) s)

/-- Evaluations that have come to an end, or would have gone on. -/
def Unstuck (strict : Prop) (r : EStateM.Result Interrupt Session α) : Prop :=
  Ends strict r ∨ ∃ s, r = .error .outOfFuel s

variable {strict lockstep : Prop} {R : World → α → α → Prop} {w : World}
  {r r' : EStateM.Result Interrupt Session α}

theorem Outcome.unstuck (h : Outcome (.exact strict) lockstep R w r r') : Unstuck strict r := by
  cases h with
  | ok _ _ _ => exact .inl .ok
  | fault _ _ _ hf => exact .inl (.fault hf)
  | host _ _ hstrict => exact .inl (.host hstrict)
  | outOfFuel _ _ => exact .inr ⟨_, rfl⟩
  | slack _ => exact .inr ⟨_, rfl⟩

end

section

variable {strict orderly lockstep : Prop} {w : World}

/-- Ends of a step that the host is told of. -/
def Told (strict orderly : Prop) (w : World) (r r' : Except Raised Answer) : Prop :=
  Attempted ((Likeness.exact strict).view w).errors (Answer.Related ((Likeness.exact strict).view w)) r r' ∧
    (strict → orderly → ∀ e, r ≠ .error (.host e))

variable {x y : Eval Answer} {s s' : Session}

/-- What attempts of a step come to tells how the step ends. -/
theorem Outcome.unstuck_of_attempt
    (h : Outcome (.exact strict) lockstep (Told strict orderly) w (Eval.attempt x s)
      (Eval.attempt y s')) : Unstuck (strict ∧ orderly) (x s) := by
  generalize Eval.attempt y s' = r' at h
  cases hx : Eval.attempt x s with
  | ok r t =>
      rw [hx] at h
      cases h with
      | ok _ _ htold =>
          obtain ⟨a, -, ha⟩ | ⟨e | e, rfl, he⟩ := Eval.attempt_inv hx
          · exact .inl (ha ▸ .ok)
          · cases htold.1 with
            | fault halike => exact .inl (he ▸ .fault halike.2.2)
          · exact .inl (he ▸ .host fun h => htold.2 h.1 h.2 e rfl)
  | error i t =>
      obtain ⟨hx', htold⟩ := Eval.attempt_error hx
      rw [hx] at h
      cases h with
      | fault _ _ _ _ => exact absurd rfl (htold (.fault _))
      | host _ _ _ => exact absurd rfl (htold (.host _))
      | outOfFuel _ _ | slack _ => exact .inr ⟨t, hx'⟩

/-- A step that ends also ends if it is given more steps. -/
theorem Outcome.ends_of_attempt
    (h : Outcome (.exact strict) lockstep (Told strict orderly) w (Eval.attempt x s)
      (Eval.attempt y s')) (hends : Ends (strict ∧ orderly) (x s)) :
    Ends (strict ∧ orderly) (y s') := by
  cases hx : Eval.attempt x s with
  | ok r t =>
      rw [hx] at h
      cases hy : Eval.attempt y s' with
      | ok r' t' =>
          rw [hy] at h
          cases h with
          | ok _ _ htold =>
              obtain ⟨hended, hhost⟩ := htold
              obtain ⟨a, -, ha⟩ | ⟨e | e, rfl, he⟩ := Eval.attempt_inv hy
              · exact ha ▸ .ok
              · cases hended with
                | fault halike => exact he ▸ .fault (halike.2.1 ▸ halike.2.2)
              · cases hended with
                | host => exact he ▸ .host fun h => hhost h.1 h.2 e rfl
      | error i t' =>
          rw [hy] at h
          cases h
  | error i t =>
      obtain ⟨hx', htold⟩ := Eval.attempt_error hx
      rw [hx'] at hends
      cases hends with
      | fault _ => exact absurd rfl (htold (.fault _))
      | host _ => exact absurd rfl (htold (.host _))

end

/-- What is known of a task that is about to be evaluated. -/
def Task.Situated (s : Session) : Task → Prop
  | .eval env e => ∃ root c σ, Lox.Situated s env (.expr e) root c σ
  | .evalAll env es => ∃ root c σ, Lox.Situated s env (.exprs es) root c σ
  | .exec env st => ∃ root c σ, Lox.Situated s env (.stmt st) root c σ
  | .execAll env ss => ∃ root c σ, Lox.Situated s env (.body ss) root c σ
  | .invoke _ callee arguments => callee.arity? = some arguments.length
  | .perform _ => True

def Task.Unstuck (strict : Prop) (n : Nat) (s : Session) : Task → Prop
  | .eval env e => Lox.Unstuck strict (Eval.eval n env e s)
  | .evalAll env es => Lox.Unstuck strict (Eval.evalAll n env es s)
  | .exec env st => Lox.Unstuck strict (Eval.exec n env st s)
  | .execAll env ss => Lox.Unstuck strict (Eval.execAll n env ss s)
  | .invoke site callee arguments => Lox.Unstuck strict (Eval.invoke n site callee arguments s)
  | .perform action => Lox.Unstuck strict (Eval.perform n action s)

section

variable {strict : Prop} {w : World} {task : Task} {s : Session}

theorem Task.Stands.situated (h : task.Stands (.exact strict) w s) : task.Situated s := by
  obtain ⟨w', -, hs, hplaced⟩ := h
  cases hplaced with
  | eval hsited _ => exact ⟨_, _, _, hs.situated hsited⟩
  | evalAll hsited _ => exact ⟨_, _, _, hs.situated hsited⟩
  | exec hsited _ => exact ⟨_, _, _, hs.situated hsited⟩
  | execAll hsited _ => exact ⟨_, _, _, hs.situated hsited⟩
  | invoke _ _ _ harity => exact harity
  | perform _ => trivial

theorem Task.Stands.unstuck (h : task.Stands (.exact strict) w s) (n : Nat) :
    task.Unstuck strict n s := by
  obtain ⟨w', -, hs, hplaced⟩ := h
  have heval : EvaluatesAlike (.exact strict) True n n := evaluatesAlike_same n
  cases hplaced with
  | eval hsited h => exact (heval.eval hsited h s s hs).unstuck
  | evalAll hsited h => exact (heval.evalAll hsited h s s hs).unstuck
  | exec hsited h => exact (heval.exec hsited h s s hs).unstuck
  | execAll hsited h => exact (heval.execAll hsited h s s hs).unstuck
  | invoke hsite hf hvs harity =>
      exact (heval.invoke hsite hf hvs harity s s hs).unstuck
  | perform h => exact (heval.perform h s s hs).unstuck

end

/-! ## The steps of a history -/

/-- A step of accepted code that never gets stuck. -/
structure Step.Sound (strict : Prop) (step : Step) (s : Session) : Prop where
  /-- The step ends, or it goes on however many steps it is given.  A mistake of the host is one of the
  step itself, if host functions make none. -/
  endsOrGoesOn : (∃ fuel, ∀ fuel', fuel ≤ fuel' → Ends (strict ∧ step.Orderly) (step.take fuel' s)) ∨
    ∀ fuel, ∃ s', step.take fuel s = .error .outOfFuel s'
  unstuck : ∀ fuel, Unstuck (strict ∧ step.Orderly) (step.take fuel s)
  proper : ∀ {fuel e s'}, step.take fuel s = .ok (.report (.failed e)) s' → e.fault.Proper
  /-- All evaluations of the step take place where their code belongs. -/
  visits : ∀ {fuel n task s'}, Visits step fuel s n task s' →
    task.Situated s' ∧ task.Unstuck strict n s'

variable {strict : Prop} {s : Session} {known : Value → Prop} {step : Step}

theorem History.told (h : History (.honest strict) s known)
    (hstep : step.Follows (.honest strict) known) {lockstep : Prop} {fuel fuel' : Nat}
    (heval : EvaluatesAlike (.exact strict) lockstep fuel fuel') :
    ∃ w, Outcome (.exact strict) lockstep (Told strict step.Orderly) w
      (Eval.attempt (step.take fuel) s) (Eval.attempt (step.take fuel') s) := by
  obtain ⟨w, hs, hknown⟩ := h.alike (Likeness.exact_obeys strict) fun h => h
  exact ⟨_, outcome_attempt_take_self heval (Likeness.exact_obeys strict) (fun h => h.accepted) hs
    hknown hstep⟩

theorem History.unstuck_take (h : History (.honest strict) s known)
    (hstep : step.Follows (.honest strict) known) (fuel : Nat) :
    Unstuck (strict ∧ step.Orderly) (step.take fuel s) := by
  have heval : EvaluatesAlike (.exact strict) True fuel fuel := evaluatesAlike_same fuel
  obtain ⟨w, hout⟩ := h.told hstep heval
  exact hout.unstuck_of_attempt

theorem History.endsOrGoesOn (h : History (.honest strict) s known)
    (hstep : step.Follows (.honest strict) known) :
    (∃ fuel, ∀ fuel', fuel ≤ fuel' → Ends (strict ∧ step.Orderly) (step.take fuel' s)) ∨
      ∀ fuel, ∃ s', step.take fuel s = .error .outOfFuel s' := by
  -- A step that ends for one number of steps ends in the same way for every larger one.
  by_cases hends : ∃ fuel, Ends (strict ∧ step.Orderly) (step.take fuel s)
  · obtain ⟨fuel, hends⟩ := hends
    refine .inl ⟨fuel, fun fuel' hle => ?_⟩
    have heval : EvaluatesAlike (.exact strict) False fuel fuel' := evaluatesAlike hle False.elim
    obtain ⟨w, hout⟩ := h.told hstep heval
    exact hout.ends_of_attempt hends
  · refine .inr fun fuel => ?_
    rcases h.unstuck_take hstep fuel with hend | hout
    · exact absurd ⟨fuel, hend⟩ hends
    · exact hout

theorem History.proper_of_failed (h : History (.honest strict) s known)
    (hstep : step.Follows (.honest strict) known) {fuel : Nat} {e : RuntimeError} {s' : Session}
    (htake : step.take fuel s = .ok (.report (.failed e)) s') : e.fault.Proper := by
  have heval : EvaluatesAlike (.exact strict) True fuel fuel := evaluatesAlike_same fuel
  obtain ⟨w, hout⟩ := h.told hstep heval
  rw [Eval.attempt_ok htake] at hout
  cases hout with
  | ok _ _ hended =>
      cases hended.1 with
      | ok hanswer =>
          cases hanswer with
          | report hr =>
              cases hr with
              | failed he => exact he.2.2

/-- Accepted code never gets stuck, whatever was done with the session before, and whatever host
functions do with it in the meantime. -/
theorem History.sound (h : History (.honest strict) s known)
    (hstep : step.Follows (.honest strict) known) : step.Sound strict s where
  endsOrGoesOn := h.endsOrGoesOn hstep
  unstuck := h.unstuck_take hstep
  proper := h.proper_of_failed hstep
  visits hvisits := by
    obtain ⟨w, hs, hknown⟩ := h.alike (Likeness.exact_obeys strict) fun h => h
    have hstands := hvisits.stands hs (fun h => h.accepted)
      (hstep.alike (Likeness.exact_obeys strict) hknown)
    exact ⟨hstands.situated, hstands.unstuck _⟩

/-- A host function that calls back.  It keeps what it gets in mind, and gives a text for it or the
message of the error. -/
def describe : HostObject :=
  .function 1 fun forms =>
    .ask (.call (forms.headD (.plain .nil)) []) fun
      | .ok (.form (.ok form)) => .keep [form] (.give (.form (.plain (.string form.value.display))))
      | .ok _ => .give (.form (.plain .nil))
      | .error (.fault e) => .give (.form (.plain (.string e.message)))
      | .error (.host e) => .give (.form (.plain (.string e.message)))

theorem describe_follows (strict : Prop) (V : View) :
    HostObject.Follows (.honest strict) V describe describe := by
  refine .function fun V₁ hV₁ _ fs fs' hlength hfs => ?_
  have text : ∀ {V' : View}, (HostRules.honest strict).view V' → ∀ {v : Value}, v.isBasic →
      HostAction.Follows (.honest strict) V' (.give (.form (.plain v))) (.give (.form (.plain v))) :=
    fun hV' v hv => .give (.form (.plain (hV'.2.basic v hv))) fun _ i cls h => by
      rw [h] at hv
      cases hv
  have hcallee : HostForm.Related V₁.values (fs.headD (.plain .nil)) (fs'.headD (.plain .nil)) := by
    cases hfs with
    | nil => cases hlength
    | cons hf _ => exact hf
  refine .ask trivial (.call hcallee .nil) fun V₂ hV₂ _ r r' hr _ => ?_
  cases hr with
  | ok hanswer =>
      cases hanswer with
      | form hf =>
          dsimp only
          rw [hV₂.1 _ _ hf.value]
          exact .keep (.cons hf .nil) (text hV₂ rfl)
      | _ => exact text hV₂ rfl
  | @fault e e' he =>
      obtain rfl := hV₂.2.same he
      exact text hV₂ rfl
  | host => exact text hV₂ rfl

/-- A session that knows a host function. -/
def described : Session :=
  leftBy ((Step.set "describe" describe).take 0 (.start {} [] fun _ => 0))

/-- Methods, `super`, a closure that outlives its block, and calls to and from the host, one of which
fails. -/
def description : String :=
  "class A \x7b init(n) \x7b this.n = n; \x7d get() \x7b return this.n; \x7d \x7d
class B < A \x7b get() \x7b return super.get; \x7d \x7d
var later;
\x7b var b = B(\"x\"); fun inner() \x7b b.n = b.get()(); return b; \x7d later = inner; \x7d
fun fails() \x7b return nil(); \x7d
print describe(fails);
print describe(later) + later(1);"

theorem History.sound_description :
    History (.honest True) described
        (fun v => Answer.nothing.Gives v ∨ described.Remembers v ∨ False) ∧
      (Step.run description).Follows (.honest True)
        (fun v => Answer.nothing.Gives v ∨ described.Remembers v ∨ False) ∧
      (compile description described.nextNode).problems = [] ∧
      (Step.run description).Sound True described := by
  have hstart : History (.honest True) (.start {} [] fun _ => 0) fun _ => False :=
    .start fun _ h => by cases h
  have hset : (Step.set "describe" describe).Follows (.honest True) fun _ => False :=
    .set (describe_follows _ _)
  have htake : (Step.set "describe" describe).take 0 (.start {} [] fun _ => 0) =
      .ok .nothing described := rfl
  have hhistory := hstart.done hset htake
  have hnone : (compile description described.nextNode).problems = [] := by
    set_option maxRecDepth 3000 in
    rw [show description = String.ofList _ from rfl]
    simp -zeta only [compile, Scan.ofSource_ofList]
    decide +kernel
  exact ⟨hhistory, .run, hnone, hhistory.sound .run⟩

end Lox
