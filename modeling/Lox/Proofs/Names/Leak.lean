import Lox.Proofs.Names.Evaluation

/-!
# Blocks and calls leak no names

However a block or a call ends, the frames that there were before it bind the same names as before,
the global frame included.  An assignment is no way around this: it changes a variable that there is,
or fails.
-/

namespace Lox

/-- What the frames bind before and after the evaluations of a step. -/
structure Step.LeaksNoNames (step : Step) (s : Session) : Prop where
  block : ∀ {fuel n env ss s₁}, Visits step fuel s n (.exec env (.block ss)) s₁ →
    s₁.KeepsNames nowhere (Task.leaves n s₁ (.exec env (.block ss)))
  call : ∀ {fuel n site f vs s₁}, Visits step fuel s n (.invoke site f vs) s₁ →
    s₁.KeepsNames nowhere (Task.leaves n s₁ (.invoke site f vs))
  /-- A statement binds at most the name that it declares, and binds it in the innermost frame. -/
  statement : ∀ {fuel n env st s₁}, Visits step fuel s n (.exec env st) s₁ →
    s₁.KeepsNames (fun f x => env.head? = some f ∧ st.declared? = some x)
      (Task.leaves n s₁ (.exec env st))
  /-- Assignments among them, expressions bind nothing in a frame that is not innermost, and no global
  variable. -/
  expression : ∀ {fuel n env e s₁}, Visits step fuel s n (.eval env e) s₁ →
    s₁.KeepsNames (fun f _ => env.head? = some f ∧ f ≠ Session.globalFrame)
      (Task.leaves n s₁ (.eval env e))

/-- Hosts whose functions run no programs and set no variables. -/
def HostRules.quiet : HostRules :=
  { HostRules.honest False with allowed := Step.Quiet }

/-- The likeness under which nothing may differ, with quiet host functions. -/
def Likeness.quiet : Likeness :=
  { Likeness.exact False with
    allowed := Step.Quiet
    reentry_of_allowed := fun _ _ => trivial }

theorem Likeness.quiet_obeys : Likeness.quiet.Obeys .quiet where
  view w := ⟨fun _ _ h => h.eq_self ⟨fun h => h, fun h => h⟩,
    Likeness.view_clear (fun h => h) (fun _ => rfl) w⟩
  strict := Iff.rfl
  allowed h := h

theorem History.leaks_no_names {s : Session} {known : Value → Prop} {step : Step}
    (h : History .quiet s known) (hstep : step.Follows .quiet known) : step.LeaksNoNames s := by
  obtain ⟨w, hs, hknown⟩ := h.alike Likeness.quiet_obeys fun h => h
  have halike := hstep.alike Likeness.quiet_obeys hknown
  have keeps : ∀ {fuel n task s₁}, Visits step fuel s n task s₁ →
      s₁.KeepsNames task.MayBind (task.leaves n s₁) := by
    intro fuel n task s₁ hvisits
    have hkept : s₁.KeepsNames (Besides nowhere task.MayBind) (task.leaves n s₁) :=
      (hvisits.stands hs (fun h => h.accepted) halike).keepsNames .inl _
    exact hkept.mono fun _ hx => hx.resolve_left id
  constructor
  · exact fun hvisits => (keeps hvisits).mono fun _ hx => absurd hx (Stmt.not_mayBind rfl)
  · exact fun hvisits => keeps hvisits
  · exact fun hvisits => keeps hvisits
  · exact fun hvisits => keeps hvisits

/-- A program that keeps a function whose variable is in a block. -/
def hoarding : String :=
  "var all = \"\"; var keep; \x7b var n = \"\"; fun add(m) \x7b n = n + m; return n; \x7d keep = add; \x7d"

/-- A block that calls this function. -/
def spending : String :=
  "\x7b var m = keep(\"x\"); all = keep(m); \x7d"

def hoarded : Session :=
  leftBy ((Step.run hoarding).take 20 (.start {} [] fun _ => 0))

theorem Visits.first {s : Session} {code : String} {n : Nat} {st : Stmt} {ss : List Stmt}
    (hnone : (compile code s.nextNode).problems = [])
    (hstatements : (compile code s.nextNode).statements = st :: ss) :
    Visits (.run code) (n + 1) s n (.exec Session.globals st) (s.ready code) := by
  have hstarts : Starts (.run code) s _ _ := .run hnone
  rw [hstatements] at hstarts
  exact .calls (.starts hstarts) .firstStmt

theorem History.leaks_no_names_hoarded : ∃ known,
    History .quiet hoarded known ∧ (Step.run spending).Follows .quiet known ∧
      (Step.run spending).LeaksNoNames hoarded ∧ ∃ ss s₁,
        Visits (.run spending) 20 hoarded 19 (.exec Session.globals (.block ss)) s₁ ∧
          s₁.KeepsNames nowhere (Task.leaves 19 s₁ (.exec Session.globals (.block ss))) := by
  have hstart : History .quiet (.start {} [] fun _ => 0) fun _ => False := .start False.elim
  obtain ⟨known, hhoarded⟩ := hstart.left (.run : Step.Follows .quiet _ (.run hoarding)) 20
  have hleaks : (Step.run spending).LeaksNoNames hoarded := hhoarded.leaks_no_names .run
  have hnone : (compile spending hoarded.nextNode).problems = [] := by decide
  obtain ⟨ss, rest, hblock⟩ : ∃ ss rest,
      (compile spending hoarded.nextNode).statements = .block ss :: rest := by
    cbv
    exact ⟨_, _, rfl⟩
  have hvisits := Visits.first (n := 19) hnone hblock
  exact ⟨known, hhoarded, .run, hleaks, ss, _, hvisits, hleaks.block hvisits⟩

end Lox
