import Lox.Proofs.ForLoop.Equivalence
import Lox.Proofs.Names.Lasting

/-!
# What a `for` loop means

Whenever a step of a session comes to a `for` loop of an accepted program, the `while` loop that stands
for it does what the loop itself would do.  They print the same, take the same from the world around
them and change variables and fields alike, and they end in the same way or both go on forever.
-/

namespace Lox

def Ended {α : Type} (r : EStateM.Result Interrupt Session α) : Prop :=
  ∀ s, r ≠ .error .outOfFuel s

namespace ForLoop

variable (l : ForLoop)

/-- The loop under numbers that a session has not given out yet. -/
def fresh (s : Session) : ForLoop :=
  l.renumber (· + s.nextNode)

/-- A session that has read the loop directly, under these numbers. -/
def readIn (c : Context) (σ : Scopes) (s : Session) : Session :=
  s.knowing ((l.fresh s).resolve c σ).references (s.nextNode + s.nextNode)

/-- Ends that are the same: what was printed and read, all variables and fields, and the value or the
error.  A layout tells where the frames of the first session are in the second one; the others are
empty. -/
inductive EndsAlike (w : Layout) :
    EStateM.Result Interrupt Session Completion → EStateM.Result Interrupt Session Completion →
      Prop where
  | ok : w ≤ w' → Session.Thins w' s s' → Completion.Thins w' r r' →
      EndsAlike w (.ok r s) (.ok r' s')
  | error : w ≤ w' → Session.Thins w' s s' → EndsAlike w (.error i s) (.error i s')

/-- In a session, the `while` loop for a `for` loop does what the loop means by itself. -/
structure MeansDirectly (c : Context) (σ : Scopes) (env : Environment) (s : Session) : Prop where
  valid : ((l.fresh s).resolve c σ).problems = []
  same : ∃ w : Layout, (∀ f < s.frames.frames.size, w.image f = some f) ∧
    Session.Thins w s (l.readIn c σ s) ∧
    (∀ n, Ended (Eval.exec n env l.desugared s) → ∃ m, EndsAlike w
      (Eval.exec n env l.desugared s) ((l.fresh s).run m env (l.readIn c σ s))) ∧
    ∀ m, Ended ((l.fresh s).run m env (l.readIn c σ s)) → ∃ n, EndsAlike w
      (Eval.exec n env l.desugared s) ((l.fresh s).run m env (l.readIn c σ s))
  diverges : (∀ n, ¬ Ended (Eval.exec n env l.desugared s)) ↔
    ∀ m, ¬ Ended ((l.fresh s).run m env (l.readIn c σ s))

variable {l} {w : Layout} {c : Context} {σ : Scopes} {env : Environment} {s s' : Session}

theorem EndsAlike.ended_iff {r r' : EStateM.Result Interrupt Session Completion}
    (h : EndsAlike w r r') : Ended r ↔ Ended r' := by
  cases h with
  | ok _ _ _ => exact ⟨fun _ => nofun, fun _ => nofun⟩
  | @error _ _ _ i _ _ =>
      have hsame : ∀ t t' : Session,
          Ended (.error i t : EStateM.Result Interrupt Session Completion) →
            Ended (.error i t' : EStateM.Result Interrupt Session Completion) := by
        rintro t t' hended s heq
        cases heq
        exact hended t rfl
      exact ⟨hsame _ _, hsame _ _⟩

/-- Loops that agree end in the same way, if neither ran out of steps. -/
theorem EndsAlike.of_agreed {early late : Prop}
    {r r' : EStateM.Result Interrupt Session Completion}
    (h : AgreedEnd early late (Completion.Thins) w r r') (hunstuck : Unstuck False r)
    (hearly : early → Ended r) (hlate : late → Ended r') : EndsAlike w r r' := by
  cases h with
  | ok hw hs hr => exact .ok hw.le hs hr
  | error hw hs hi =>
      cases hi with
      | same => exact .error hw.le hs
      | stray _ =>
          rcases hunstuck with hends | ⟨_, hout⟩
          · cases hends
          · cases hout
  | early h => exact absurd rfl (hearly h _)
  | late h => exact absurd rfl (hlate h _)

theorem agree_fresh {table : NodeId → Option Nat}
    (h : Anchored w s env table c σ (.stmt l.desugared)) :
    ∃ w' : Layout, w ≤ w' ∧ Session.Thins w' s (l.readIn c σ s) ∧
      ∀ {early late : Prop} {n m : Nat}, early ∨ m + 8 ≤ n → late ∨ n ≤ m →
        Agree early late (Completion.Thins) w' (Eval.exec n env l.desugared)
          ((l.fresh s).run m env) := by
  have hsubset : ∀ id ∈ bodyIds l.parts, id ∈ (Part.stmt l.desugared).ids :=
    fun id hid => (l.ids_parts ▸ hid : id ∈ l.desugared.ids)
  have hread := h.session.thins.reading (fun id hid => h.recorded id (hsubset id hid))
    (fun id hid => h.below id (hsubset id hid)) c (l.opened σ)
  rw [← l.resolve_renumber] at hread
  have hthins : LoopThins (.reading table c (l.opened σ) l.parts s.nextNode)
      (List.replicate (σ.length + 1) false) l (l.fresh s) :=
    thins_loop (T := .reading table c (l.opened σ) l.parts s.nextNode) h.checked
      (checked_parts h.checked s.nextNode) (Scopes.thins_self σ) fun _ hid => hid
  have hle : w ≤ w.relax.learn (.reading table c (l.opened σ) l.parts s.nextNode) :=
    Layout.le_trans w.le_relax (w.relax.later_learn _).le
  exact ⟨_, hle, hread, fun hearly hlate =>
    agree_run hearly hlate ⟨.inl rfl, h.env.mono hle⟩ id hthins⟩

theorem problems_fresh {table : NodeId → Option Nat}
    (h : Checked table c σ (.stmt l.desugared)) : ((l.fresh s).resolve c σ).problems = [] := by
  have hnone := problems_resolve h
  unfold resolve at hnone
  unfold fresh
  rw [resolve_renumber, resolveBody_moved]
  simp only [Findings.moved, hnone, List.map_nil]

theorem meansDirectly_of_anchored {table : NodeId → Option Nat}
    (h : Anchored w s env table c σ (.stmt l.desugared))
    (hunstuck : ∀ n, Unstuck False (Eval.exec n env l.desugared s)) :
    l.MeansDirectly c σ env s := by
  obtain ⟨w', hle, hread, hagree⟩ := agree_fresh h
  have himage : ∀ f < s.frames.frames.size, w'.image f = some f := by
    intro f hf
    rw [h.session.thins.frames.size] at hf
    exact (hle.image hf).trans (w.image_whole h.session.whole f hf)
  have forth : ∀ n, Ended (Eval.exec n env l.desugared s) → ∃ m, EndsAlike w'
      (Eval.exec n env l.desugared s) ((l.fresh s).run m env (l.readIn c σ s)) := by
    intro n hended
    have hend : AgreedEnd True False (Completion.Thins) w' _ _ :=
      hagree (.inl trivial) (.inr (Nat.le_refl n)) _ _ hread
    exact ⟨n, .of_agreed hend (hunstuck n) (fun _ => hended) False.elim⟩
  have back : ∀ m, Ended ((l.fresh s).run m env (l.readIn c σ s)) → ∃ n, EndsAlike w'
      (Eval.exec n env l.desugared s) ((l.fresh s).run m env (l.readIn c σ s)) := by
    intro m hended
    have hend : AgreedEnd False True (Completion.Thins) w' _ _ :=
      hagree (.inr (Nat.le_refl (m + 8))) (.inl trivial) _ _ hread
    exact ⟨m + 8, .of_agreed hend (hunstuck _) False.elim fun _ => hended⟩
  refine ⟨problems_fresh h.checked, ⟨w', himage, hread, forth, back⟩, ?_, ?_⟩
  · intro hnever m hended
    obtain ⟨n, halike⟩ := back m hended
    exact hnever n (halike.ended_iff.mpr hended)
  · intro hnever n hended
    obtain ⟨m, halike⟩ := forth n hended
    exact hnever m (halike.ended_iff.mp hended)

end ForLoop

/-! ## `for` loops that a step comes to -/

/-- What a step makes of a `for` loop that it comes to. -/
structure ForLoop.RunsDirectly (l : ForLoop) (step : Step) (fuel : Nat) (s : Session)
    (env : Environment) (s₁ : Session) : Prop where
  /-- The loop stands at a place of an accepted program, and does there what it means by itself. -/
  means : ∃ root c σ, Situated s₁ env (.stmt l.desugared) root c σ ∧ l.MeansDirectly c σ env s₁
  /-- The frame of the block around body and increment binds nothing, whenever the step comes to the
  block and however far the block runs. -/
  empty : ∀ {e n outer s₂}, l.increment = some e →
    Visits step fuel s n (.exec outer (.block [l.body, .expression e])) s₂ → ∀ m,
      (leftBy (Eval.exec m outer (.block [l.body, .expression e]) s₂)).frames.bindings
        s₂.frames.frames.size = []
  /-- Once the step is through with the block, the frame binds nothing ever after. -/
  stays : ∀ {e n outer s₂ known s'}, l.increment = some e →
    Visits step fuel s (n + 1) (.exec outer (.block [l.body, .expression e])) s₂ →
      History .outward (leftBy (step.take fuel s)) known →
        Onward .outward (leftBy (step.take fuel s)) known s' →
          s'.frames.bindings s₂.frames.frames.size = []

/-- Whenever a step of a history comes to the `while` loop for a `for` loop, that does what the `for`
loop means by itself. -/
theorem History.forLoop_direct {s s₁ : Session} {known : Value → Prop} {step : Step}
    {fuel n : Nat} {env : Environment} {l : ForLoop} (hhistory : History .outward s known)
    (hstep : step.Follows .outward known)
    (hvisits : Visits step fuel s n (.exec env l.desugared) s₁) :
    l.RunsDirectly step fuel s env s₁ := by
  have empty : ∀ {e n outer s₂}, l.increment = some e →
      Visits step fuel s n (.exec outer (.block [l.body, .expression e])) s₂ → ∀ m,
        (leftBy (Eval.exec m outer (.block [l.body, .expression e]) s₂)).frames.bindings
          s₂.frames.frames.size = [] := by
    intro e n outer s₂ _ hround m
    obtain ⟨w, table, root, c, σ, -, hanchored⟩ := hround.anchored hhistory hstep
    refine hanchored.empty_of_quiet ?_ m
    intro st hst
    rcases List.mem_cons.mp hst with rfl | hst
    · exact l.quiet
    · rw [List.mem_singleton.mp hst]
      rfl
  constructor
  case means =>
    obtain ⟨w, table, root, c, σ, hsituated, hanchored⟩ := hvisits.anchored hhistory hstep
    obtain ⟨world, hstands⟩ := hvisits.stands_outward hhistory hstep
    exact ⟨root, c, σ, hsituated, ForLoop.meansDirectly_of_anchored hanchored hstands.unstuck⟩
  case empty => exact empty
  case stays =>
    intro e n outer s₂ known' s' hincrement hround hleft honward
    obtain ⟨w, hs, hknown⟩ := hhistory.alike Likeness.exact_obeys_outward fun h => h
    obtain ⟨w', hs', hknown'⟩ := hleft.alike Likeness.exact_obeys_outward fun h => h
    have halike := hstep.alike Likeness.exact_obeys_outward hknown
    have hstands := hround.stands hs (fun h => h.accepted) halike
    have hlocal : s₂.frames.frames.size ≠ Session.globalFrame := by
      obtain ⟨w₂, -, hs₂, -⟩ := hstands
      rw [hs₂.frames.size]
      exact Nat.ne_of_gt hs₂.frames.globals
    have hlasts : Session.Lasts s₂.frames.frames.size _ s' :=
      (hround.lasts hs (fun h => h.accepted) halike (Nat.le_refl _)).trans
        (hs'.lasts_onward Likeness.exact_obeys_outward (fun h => h) hknown' honward)
    exact hlasts.empty hstands.size_lt_block hlocal (empty hincrement hround _)

/-- A loop whose body makes a function, which keeps the frames around it. -/
def blink : String :=
  "for (var lit = true; lit; lit = false) \x7b fun show() \x7b print lit; \x7d show(); \x7d"

def blinkLoop : ForLoop :=
  let lit : Token := ⟨.name, "lit", .nil, 1⟩
  let shown : Token := ⟨.name, "show", .nil, 1⟩
  { initial := some (.var lit (some (.literal 0 (.bool true))))
    condition := .given (.read 1 lit)
    increment := some (.assign 4 lit (.literal 3 (.bool false)))
    body := .block [.function (.mk shown [] [.print (.read 5 lit)]),
      .expression (.call 7 (.read 6 shown) ⟨.rightParen, ")", .nil, 1⟩ [])]
    quiet := rfl }

theorem History.forLoop_direct_blink :
    History .outward (.start {} [] fun _ => 0) (fun _ => False) ∧
      (Step.run blink).Follows .outward (fun _ => False) ∧
      Visits (.run blink) 1 (.start {} [] fun _ => 0) 0
        (.exec Session.globals blinkLoop.desugared)
        (Session.ready (.start {} [] fun _ => 0) blink) ∧
      blinkLoop.RunsDirectly (.run blink) 1 (.start {} [] fun _ => 0) Session.globals
        (Session.ready (.start {} [] fun _ => 0) blink) := by
  have hhistory : History .outward (.start {} [] fun _ => 0) fun _ => False :=
    .start fun h => h.elim
  have hstarts : Starts (.run blink) (.start {} [] fun _ => 0)
      (.execAll Session.globals [blinkLoop.desugared])
      (Session.ready (.start {} [] fun _ => 0) blink) :=
    .run (by decide)
  have hvisits : Visits (.run blink) 1 (.start {} [] fun _ => 0) 0
      (.exec Session.globals blinkLoop.desugared)
      (Session.ready (.start {} [] fun _ => 0) blink) :=
    .calls (.starts hstarts) .firstStmt
  exact ⟨hhistory, .run, hvisits, hhistory.forLoop_direct .run hvisits⟩

end Lox
