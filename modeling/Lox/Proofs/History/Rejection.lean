import Lox.Proofs.History.Growth
import Lox.Proofs.Soundness.Exact

/-!
# Refused sources leave no trace

A session that refuses a source has given out numbers for its references, and may have begun a run.
Nothing that is done with the session later shows this: every step then ends as it would have ended
without the refused one.  Only the output and the flags are those of different runs, until a run begins
in both sessions.
-/

namespace Lox

/-! ## Values without their numbers -/

/-- A value whose references all have the same number. -/
def Value.unnumbered (v : Value) : Value :=
  v.renumber fun _ => 0

def HostForm.unnumbered : HostForm → HostForm
  | .plain v => .plain v.unnumbered
  | .wrapper f => .wrapper f.unnumbered

def Answer.unnumbered : Answer → Answer
  | .form (.ok f) => .form (.ok f.unnumbered)
  | answer => answer

/-- The likeness under which nothing but the numbers of references may differ. -/
def Likeness.renumbering : Likeness :=
  { Likeness.exact False with
    number := fun _ _ => True
    number_refl := fun _ => trivial }

/-- Hosts may look into values as they like, but not at the numbers of references. -/
def HostRules.blind : HostRules where
  view V := (∀ v v', V.values v v' → v'.unnumbered = v.unnumbered) ∧ V.Clear
  strict := False
  allowed _ := True

theorem Likeness.renumbering_exact : Likeness.renumbering.Exact fun _ => 0 :=
  ⟨fun h => h, fun _ => rfl⟩

theorem Likeness.renumbering_obeys : Likeness.renumbering.Obeys .blind where
  view w := ⟨fun _ _ h => h.eq Likeness.renumbering_exact, Likeness.view_clear (fun h => h) (fun _ => rfl) w⟩
  strict := Iff.rfl
  allowed h := h

/-- Sessions that differ in the numbers of references only, apart from the output and the flags. -/
structure Session.SameButNumbers (s s' : Session) : Prop where
  frames : ∀ f, (s'.frames.bindings f).mapValues Value.unnumbered =
    (s.frames.bindings f).mapValues Value.unnumbered
  frameCount : s'.frames.frames.size = s.frames.frames.size
  fields : ∀ i, (s'.fields.getD i []).mapValues Value.unnumbered =
    (s.fields.getD i []).mapValues Value.unnumbered
  instanceCount : s'.fields.size = s.fields.size
  nativeCount : s'.natives.size = s.natives.size
  nextObject : s'.nextObject = s.nextObject
  depth : s'.depth = s.depth
  limits : s'.limits = s.limits
  written : s'.written = s.written
  input : s'.input = s.input
  readings : s'.readings = s.readings
  ticks : s'.ticks = s.ticks
  memory : s'.memory.map HostForm.unnumbered = s.memory.map HostForm.unnumbered

/-- Sessions that also agree on the output and the flags of the last run. -/
structure Session.SameReport (s s' : Session) : Prop where
  output : s'.output = s.output
  staticError : s'.hadStaticError = s.hadStaticError
  runtimeError : s'.hadRuntimeError = s.hadRuntimeError

/-- Steps that end with the same answer, or are interrupted in the same way. -/
inductive SameEnd : EStateM.Result Interrupt Session Answer →
    EStateM.Result Interrupt Session Answer → Prop where
  | ok : a'.unnumbered = a.unnumbered → SameEnd (.ok a s) (.ok a' s')
  | error : SameEnd (.error interrupt s) (.error interrupt s')

section

variable {w : World} {s s' : Session}

theorem formsAlike_unnumbered {f f' : HostForm}
    (h : HostForm.Related (Value.Alike .renumbering w) f f') : f'.unnumbered = f.unnumbered := by
  cases h with
  | plain h | wrapper h =>
      simp only [HostForm.unnumbered, Value.unnumbered, h.eq Likeness.renumbering_exact]

theorem formsAlike_map_unnumbered {fs fs' : List HostForm}
    (h : List.Forall₂ (HostForm.Related (Value.Alike .renumbering w)) fs fs') :
    fs'.map HostForm.unnumbered = fs.map HostForm.unnumbered := by
  induction h with
  | nil => rfl
  | cons hf _ ih => simp only [List.map_cons, formsAlike_unnumbered hf, ih]

theorem Session.Alike.sameButNumbers (h : Session.Alike .renumbering w s s') :
    s.SameButNumbers s' where
  frames f := by
    have hbindings := h.frames.bindings f
    have hrename : w.rename f = fun x => x := h.frames.renames f
    rw [hrename] at hbindings
    exact hbindings.mapValues_eq fun hv => hv.eq Likeness.renumbering_exact
  frameCount := h.frames.size'.trans h.frames.size.symm
  fields i := (h.fields.bindings i).mapValues_eq fun hv => hv.eq Likeness.renumbering_exact
  instanceCount := h.fields.size
  nativeCount := h.natives.size'.trans h.natives.size.symm
  nextObject := h.nextObject
  depth := h.depth
  limits := h.limits
  written := h.written
  input := h.input
  readings := h.readings
  ticks := h.ticks
  memory := formsAlike_map_unnumbered h.memory

theorem RuntimeError.Alike.eq {e e' : RuntimeError} (h : RuntimeError.Alike .renumbering e e') :
    e' = e :=
  (Likeness.view_clear (fun h => h) (fun _ => rfl) .start).same h

theorem Answer.Related.unnumbered_eq {a a' : Answer}
    (h : Answer.Related (Likeness.renumbering.view w) a a') : a'.unnumbered = a.unnumbered := by
  cases h with
  | report h =>
      cases h with
      | failed he => rw [RuntimeError.Alike.eq he]
      | _ => rfl
  | form h => simp only [Answer.unnumbered, formsAlike_unnumbered h]
  | _ => rfl

theorem Outcome.sameEnd {r r' : EStateM.Result Interrupt Session Answer}
    (h : Outcome .renumbering True (fun w' => Answer.Related (Likeness.renumbering.view w')) w r r') :
    SameEnd r r' := by
  cases h with
  | ok _ _ hanswer => exact .ok hanswer.unnumbered_eq
  | @fault _ _ _ _ _ _ _ _ _ htoken _ =>
      obtain rfl := htoken
      exact .error
  | host _ _ _ => exact .error
  | outOfFuel _ _ => exact .error
  | slack h => exact absurd trivial h

end

/-! ## The refused step -/

/-- A step whose source is refused. -/
inductive Step.Refused (i : NodeId) : Step → Prop where
  | run : (compile code i).problems ≠ [] → Step.Refused i (.run code)
  | execute : (compile code i).problems ≠ [] → Step.Refused i (.execute code)
  | evaluate : (compileExpression code i).tree = .error problems → Step.Refused i (.evaluate code)

def Step.begins : Step → Bool
  | .run _ | .runOther _ | .execute _ => true
  | _ => false

/-- The session after a step that was refused, with the number of its next reference. -/
def Session.refusing (s : Session) (step : Step) (i : NodeId) : Session :=
  if step.begins then { s.beginRun with nextNode := i, hadStaticError := true }
  else { s with nextNode := i }

/-- A refused step gives out numbers.  If it begins a run, it also empties the output and sets the
flags. -/
theorem Step.Refused.leftBy_eq {s : Session} {step : Step} (h : step.Refused s.nextNode)
    (fuel : Nat) : ∃ gap, leftBy (step.take fuel s) = s.refusing step (s.nextNode + gap) := by
  have program : ∀ {code : String}, (compile code s.nextNode).problems ≠ [] →
      ∃ gap, Eval.runProgram (Eval.execAll fuel) code s =
        .ok (.rejected (compile code s.nextNode).problems)
          { s.beginRun with nextNode := s.nextNode + gap, hadStaticError := true } := by
    intro code hsome
    obtain ⟨gap, hgap⟩ := Nat.exists_eq_add_of_le (le_nextId_compile code s.nextNode)
    refine ⟨gap, ?_⟩
    rw [Eval.runProgram_rejected hsome, hgap]
  cases h with
  | run hsome =>
      obtain ⟨gap, hrun⟩ := program hsome
      refine ⟨gap, ?_⟩
      rw [Step.take, Eval.take, leftBy_map, hrun]
      rfl
  | execute hsome =>
      obtain ⟨gap, hrun⟩ := program hsome
      refine ⟨gap, ?_⟩
      rw [Step.take, Eval.take, leftBy_map, Eval.executeProgram, eval_bind_apply, hrun]
      rfl
  | @evaluate code problems hrefused =>
      obtain ⟨gap, hgap⟩ := Nat.exists_eq_add_of_le (le_nextId_compileExpression code s.nextNode)
      refine ⟨gap, ?_⟩
      rw [Step.take, Eval.take, leftBy_map, Eval.evaluateCode, eval_get_bind_apply,
        eval_modify_bind_apply, hrefused, ← hgap]
      rfl

/-- The pace of two sessions, of which only the first one has refused a step: the second one is ahead
with its output, as long as no run has begun since. -/
def Pace.Follows (pace : Pace) (refused : Step) (s : Session) (begun : Bool) : Prop :=
  pace.ahead = #[] ∧ pace.stale = false ∨
    begun = false ∧ refused.begins = true ∧ pace.ahead = s.output

section

variable {s : Session} {step : Step} {w : World}

/-- The session is like the one before the refused step, at another pace. -/
theorem Session.Alike.refusing (hs : Session.Alike .renumbering w s s) (step : Step) (gap : Nat) :
    ∃ pace : Pace, Session.Alike .renumbering (w.paced pace)
      (s.refusing step (s.nextNode + gap)) s ∧ pace.Follows step s false := by
  unfold Session.refusing
  have hle : s.nextNode ≤ s.nextNode + gap := Nat.le_add_right _ _
  split
  · next hbegins =>
      exact ⟨⟨s.output, true, gap⟩, hs.paced hle (Nat.le_refl _) (fun _ => rfl) (fun _ _ => trivial)
        rfl nofun nofun, .inr ⟨rfl, hbegins, rfl⟩⟩
  · exact ⟨⟨#[], false, gap⟩, hs.paced hle (Nat.le_refl _) (fun _ => rfl) (fun _ _ => trivial)
      (Array.empty_append).symm (fun _ => rfl) (fun _ => rfl), .inl ⟨rfl, rfl⟩⟩

end

/-! ## Later steps -/

/-- Values that host functions keep in mind in the same place. -/
def RememberedAlike (t s : Session) (v v' : Value) : Prop :=
  ∃ f f', (f, f') ∈ t.memory.zip s.memory ∧ v = f.value ∧ v' = f'.value

/-- What looks the same to a host that knows which values correspond. -/
def View.paired (R : Value → Value → Prop) : View where
  values := R
  errors _ _ := False

/-- Two sessions that the host uses in the same way, from the moment on when they were `t` and `s`, and
the values that correspond by now.  It is noted whether a run has begun since. -/
inductive Parallel (rules : HostRules) (t s : Session) (R : Value → Value → Prop) :
    Session → Session → (Value → Value → Prop) → Bool → Prop where
  | start : Parallel rules t s R t s R false
  | taken : Parallel rules t s R t₁ s₁ S begun → Step.Corresponds rules (.paired S) step step' →
      Parallel rules t s R (leftBy (step.take fuel t₁)) (leftBy (step'.take fuel s₁))
        (fun v v' => (∃ a a' t₂ s₂, step.take fuel t₁ = .ok a t₂ ∧ step'.take fuel s₁ = .ok a' s₂ ∧
          a.Gives v ∧ a'.Gives v') ∨
            RememberedAlike (leftBy (step.take fuel t₁)) (leftBy (step'.take fuel s₁)) v v' ∨ S v v')
        (begun || step.begins)

/-- What holds of two sessions, of which only the first one has refused a step, some steps later. -/
structure Untraced (refused : Step) (s t₁ s₁ : Session) (begun : Bool) : Prop where
  same : t₁.SameButNumbers s₁
  /-- The output and the flags may be those of different runs, as long as no run has begun since. -/
  report : t₁.SameReport s₁ ∨
    begun = false ∧ refused.begins = true ∧ s₁.output = s.output ++ t₁.output

section

variable {refused : Step} {t s t₁ s₁ : Session} {R S : Value → Value → Prop} {begun : Bool} {w₀ w : World}

theorem Session.Alike.withoutTrace (h : Session.Alike .renumbering w t₁ s₁)
    (hpace : w.pace.Follows refused s begun) : Untraced refused s t₁ s₁ begun where
  same := h.sameButNumbers
  report := by
    have houtput := h.output
    rcases hpace with ⟨hahead, hstale⟩ | ⟨hbegun, hbegins, hahead⟩
    · rw [hahead, Array.empty_append] at houtput
      exact .inl ⟨houtput, h.staticError hstale, h.runtimeError hstale⟩
    · exact .inr ⟨hbegun, hbegins, hahead ▸ houtput⟩

theorem Pace.Follows.later (h : w₀.pace.Follows refused s begun) {step : Step}
    (hw : World.Later .renumbering (w₀.before step) w) :
    w.pace.Follows refused s (begun || step.begins) := by
  have hreset : w₀.pace.reset.ahead = #[] ∧ w₀.pace.reset.stale = false := ⟨rfl, rfl⟩
  cases step with
  | run | runOther | execute =>
      rw [hw.pace_of_reset]
      exact .inl hreset
  | _ =>
      change w.pace.Follows refused s (begun || false)
      rw [Bool.or_false]
      rcases hw.pace with hsame | ⟨-, hsame⟩
      · rw [hsame]
        exact h
      · rw [hsame]
        exact .inl hreset

theorem outcome_corresponding (hs : Session.Alike .renumbering w t₁ s₁)
    (hS : ∀ v v', S v v' → Value.Alike .renumbering w v v') {step step' : Step}
    (hstep : step.Corresponds .blind (.paired S) step') (fuel : Nat) :
    Outcome .renumbering True (fun w' => Answer.Related (Likeness.renumbering.view w'))
      (w.before step) (step.take fuel t₁) (step'.take fuel s₁) :=
  outcome_take (evaluatesAlike_same fuel).proceeds hs (fun _ => hs.nextNode trivial)
    (fun _ => hs.number trivial) (fun h => h.accepted)
    (hstep.alike Likeness.renumbering_obeys ⟨fun h => hS _ _ h, False.elim⟩) False.elim

theorem Session.Alike.remembered (hs : Session.Alike .renumbering w t₁ s₁) {v v' : Value}
    (hv : RememberedAlike t₁ s₁ v v') : Value.Alike .renumbering w v v' := by
  obtain ⟨f, f', hmem, rfl, rfl⟩ := hv
  exact ((List.forall₂_iff_zip.mp hs.memory).2 hmem).value

/-- Sessions used in the same way stay alike. -/
theorem Parallel.alike (h : Parallel .blind t s R t₁ s₁ S begun)
    (hs : Session.Alike .renumbering w₀ t s) (hR : ∀ v v', R v v' → Value.Alike .renumbering w₀ v v')
    (hpace : w₀.pace.Follows refused s false) :
    ∃ w : World, Session.Alike .renumbering w t₁ s₁ ∧
      (∀ v v', S v v' → Value.Alike .renumbering w v v') ∧ w.pace.Follows refused s begun := by
  -- Besides likeness, the pace is carried along: whether the report of the refused step can still
  -- be seen.
  induction h with
  | start => exact ⟨w₀, hs, hR, hpace⟩
  | @taken t₁ s₁ S begun step step' fuel _ hstep ih =>
      obtain ⟨w, hs, hS, hpace⟩ := ih
      have hout := outcome_corresponding hs hS hstep fuel
      generalize step.take fuel t₁ = r at hout ⊢
      generalize step'.take fuel s₁ = r' at hout ⊢
      have later : ∀ {w'}, World.Later .renumbering (w.before step) w' → w ≤ w' :=
        fun hw => World.le_trans (w.le_before step) hw.le
      cases hout with
      | @ok w' _ _ a a' hw hs' hanswer =>
          refine ⟨w', hs', fun v v' hv => ?_, hpace.later hw⟩
          rcases hv with ⟨_, _, _, _, heq, heq', hv, hv'⟩ | hv | hv
          · cases heq
            cases heq'
            cases hanswer with
            | form halike =>
                obtain rfl := hv
                obtain rfl := hv'
                exact halike.value
            | _ => cases hv
          · exact hs'.remembered hv
          · exact (hS v v' hv).mono (later hw)
      | @fault w' _ _ _ _ _ _ hw hs' _ _ | @host w' _ _ _ hw hs' _ | @outOfFuel w' _ _ hw hs' =>
          refine ⟨w', hs', fun v v' hv => ?_, hpace.later hw⟩
          rcases hv with ⟨_, _, _, _, heq, _⟩ | hv | hv
          · cases heq
          · exact hs'.remembered hv
          · exact (hS v v' hv).mono (later hw)
      | slack h => exact absurd trivial h

end

/-- Whatever is done with a session after a source was refused, it comes to what it would have come
to without it. -/
theorem History.untraced {s : Session} {known : Value → Prop} (h : History .blind s known)
    {refused : Step} (hrefused : refused.Refused s.nextNode) {fuel : Nat} {t₁ s₁ : Session}
    {S : Value → Value → Prop} {begun : Bool}
    (hlater : Parallel .blind (leftBy (refused.take fuel s)) s (Shared known) t₁ s₁ S begun) :
    (∃ i, leftBy (refused.take fuel s) = s.refusing refused i) ∧ Untraced refused s t₁ s₁ begun ∧
      ∀ {step step' : Step}, step.Corresponds .blind (.paired S) step' → ∀ fuel,
        SameEnd (step.take fuel t₁) (step'.take fuel s₁) := by
  obtain ⟨w, hs, hknown⟩ := h.alike Likeness.renumbering_obeys fun h => h
  obtain ⟨gap, hleft⟩ := hrefused.leftBy_eq fuel
  obtain ⟨pace, hrefusing, hpace⟩ := hs.refusing refused gap
  rw [hleft] at hlater
  have hshared : ∀ v v', Shared known v v' → Value.Alike .renumbering (w.paced pace) v v' :=
    fun v v' hv => (Shared.alike hknown v v' hv).mono (w.le_paced pace)
  obtain ⟨w', hs', hS, hpace'⟩ := hlater.alike hrefusing hshared hpace
  refine ⟨⟨_, hleft⟩, hs'.withoutTrace hpace', fun hstep fuel => ?_⟩
  exact (outcome_corresponding hs' hS hstep fuel).sameEnd

/-- A program with a reference too many, and a closure that is made and called afterwards. -/
theorem History.untraced_closure :
    let s := Session.start {} [] fun _ => 0
    let refused := Step.run "\x7b var a = a; \x7d"
    let first := Step.run "var f; \x7b var b = 1; fun get() \x7b return b; \x7d f = get; \x7d"
    History .blind s (fun _ => False) ∧ refused.Refused s.nextNode ∧
      Untraced refused s (leftBy (first.take 20 (leftBy (refused.take 20 s))))
        (leftBy (first.take 20 s)) true ∧
      SameEnd ((Step.evaluate "f()").take 20 (leftBy (first.take 20 (leftBy (refused.take 20 s)))))
        ((Step.evaluate "f()").take 20 (leftBy (first.take 20 s))) := by
  intro s refused first
  have hstart : History .blind s fun _ => False := .start False.elim
  have hrefused : refused.Refused s.nextNode := .run (by decide)
  have hlater : Parallel .blind (leftBy (refused.take 20 s)) s (Shared fun _ => False)
      (leftBy (first.take 20 (leftBy (refused.take 20 s)))) (leftBy (first.take 20 s)) _ true :=
    .taken .start .run
  obtain ⟨-, huntraced, hsame⟩ := hstart.untraced hrefused hlater
  exact ⟨hstart, hrefused, huntraced, hsame .evaluate 20⟩

end Lox
