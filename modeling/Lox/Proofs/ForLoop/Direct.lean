import Lox.Proofs.Grammar.StatementSoundness
import Lox.Proofs.Thinning.Reading

/-!
# `for` loops without `while` loops

Reading turns a `for` loop into a `while` loop, with a block around it for the initializer and one
inside of it for body and increment.  Here is what a `for` loop means by itself: there is one scope,
if there is an initializer, and everything else stands in that scope.
-/

namespace Lox

/-- A `for` loop.  Its body is a statement, so it declares nothing. -/
structure ForLoop where
  initial : Option Stmt
  condition : ForCondition
  increment : Option Expr
  body : Stmt
  quiet : body.declares = false

namespace ForLoop

variable (l : ForLoop)

/-- The condition, which holds if there is none. -/
def test : Expr :=
  l.condition.tree

/-! ## As a `while` loop -/

/-- What reading makes of a `for` loop. -/
def desugared : Stmt :=
  .forLoop l.initial l.test l.increment l.body

/-- What the `while` loop repeats. -/
def step : Stmt :=
  match l.increment with
  | none => l.body
  | some e => .block [l.body, .expression e]

theorem desugared_of_none (h : l.initial = none) : l.desugared = .loop l.test l.step := by
  unfold desugared
  rw [h]
  rfl

theorem desugared_of_some {first : Stmt} (h : l.initial = some first) :
    l.desugared = .block [first, .loop l.test l.step] := by
  unfold desugared
  rw [h]
  rfl

end ForLoop

theorem Grammar.Statement.declares_desugar {isOpen : Bool} {i j : Ledger} {ts rest : List Token}
    {phrase : Phrase} (h : Grammar.Statement isOpen i ts phrase j rest) :
    phrase.desugar.declares = false := by
  cases h with
  | expression h =>
      cases h
      rfl
  | forLoop _ _ _ _ _ _ _ _ _ =>
      rw [Parse.desugar_forLoop]
      unfold Stmt.forLoop
      dsimp only
      split <;> rfl
  | _ => rfl

/-- Every `for` statement of the grammar is a `for` loop. -/
theorem Grammar.Statement.exists_forLoop {isOpen : Bool} {i j : Ledger} {ts rest : List Token}
    {initial : Option Phrase} {condition : ForCondition} {increment : Option Expr} {body : Phrase}
    (h : Grammar.Statement isOpen i ts (.forLoop initial condition increment body) j rest) :
    ∃ l : ForLoop, (Phrase.forLoop initial condition increment body).desugar = l.desugared ∧
      l.initial = initial.map Phrase.desugar ∧ l.condition = condition ∧
      l.increment = increment ∧ l.body = body.desugar := by
  cases h with
  | expression h => cases h
  | forLoop _ _ _ _ _ _ _ hbody _ =>
      exact ⟨⟨initial.map Phrase.desugar, condition, increment, body.desugar,
        hbody.declares_desugar⟩, Parse.desugar_forLoop _ _ _ _, rfl, rfl, rfl, rfl⟩

namespace ForLoop

variable (l : ForLoop)

/-! ## Direct resolution -/

def repeated : List Stmt :=
  .expression l.test :: l.body :: (l.increment.map .expression).toList

def parts : List Stmt :=
  l.initial.toList ++ l.repeated

/-- The scope of the loop, which is there if there is an initializer. -/
def opened (σ : Scopes) : Scopes :=
  if l.initial.isSome then [] :: σ else σ

/-- All parts of the loop stand in its scope, one after the other. -/
def resolve (c : Context) (σ : Scopes) : Findings :=
  (resolveBody c (l.opened σ) l.parts).1

/-! ## Direct execution -/

def advance (n : Nat) (env : Environment) : Eval Unit :=
  match l.increment with
  | none => return
  | some e => do
    let _ ← Eval.eval n env e

/-- Once through the body.  The increment comes after it, unless it returns. -/
def once (n : Nat) (env : Environment) : Eval Completion := do
  match ← Eval.exec n env l.body with
  | .normal => do
    l.advance n env
    return .normal
  | .returned value => return .returned value

/-- Through the body again and again, as long as the condition holds. -/
def rounds : Nat → Environment → Eval Completion
  | 0, _ => throw .outOfFuel
  | n + 1, env => do
    let condition ← Eval.eval n env l.test
    if condition.isTruthy then
      match ← l.once n env with
      | .normal => rounds n env
      | .returned value => return .returned value
    else return .normal

/-- Executes the loop in an environment.  The frame for the variable of the initializer is the only
one that it makes by itself. -/
def run (n : Nat) (env : Environment) : Eval Completion :=
  match l.initial with
  | none => l.rounds n env
  | some first => do
    let inner ← Eval.enter env
    match ← Eval.exec n inner first with
    | .normal => l.rounds n inner
    | .returned value => return .returned value

/-! ## Other numbers -/

end ForLoop

theorem Stmt.declares_moved (k : Int) (ν : NodeId → NodeId) (s : Stmt) :
    (s.moved k ν).declares = s.declares := by
  cases s with
  | var _ initial => cases initial <;> rfl
  | cond _ _ no => cases no <;> rfl
  | ret _ value => cases value <;> rfl
  | classDecl _ base _ => cases base <;> rfl
  | _ => rfl

def ForCondition.moved (ν : NodeId → NodeId) : ForCondition → ForCondition
  | .absent id => .absent (ν id)
  | .given condition => .given (condition.moved 0 ν)

namespace ForLoop

def renumber (l : ForLoop) (ν : NodeId → NodeId) : ForLoop where
  initial := l.initial.map (Stmt.moved 0 ν)
  condition := l.condition.moved ν
  increment := l.increment.map (Expr.moved 0 ν)
  body := l.body.moved 0 ν
  quiet := (Stmt.declares_moved 0 ν l.body).trans l.quiet

variable (l : ForLoop) (ν : NodeId → NodeId)

theorem test_renumber : (l.renumber ν).test = l.test.moved 0 ν := by
  rcases l with ⟨_, _ | e, _, _, _⟩ <;> rfl

theorem repeated_renumber : (l.renumber ν).repeated = movedBody 0 ν l.repeated := by
  rcases l with ⟨_, _ | e, _ | e', _, _⟩ <;> rfl

theorem parts_renumber : (l.renumber ν).parts = movedBody 0 ν l.parts := by
  unfold parts
  rw [repeated_renumber]
  rcases l with ⟨_ | first, _, _, _, _⟩ <;> rfl

theorem opened_renumber (σ : Scopes) : (l.renumber ν).opened σ = l.opened σ := by
  rcases l with ⟨_ | first, _, _, _, _⟩ <;> rfl

theorem resolve_renumber (c : Context) (σ : Scopes) :
    (l.renumber ν).resolve c σ = (resolveBody c (l.opened σ) (movedBody 0 ν l.parts)).1 := by
  unfold resolve
  rw [parts_renumber, opened_renumber]

/-! ## Both readings are checked -/

theorem ids_parts : bodyIds l.parts = l.desugared.ids := by
  rcases l with ⟨_ | first, _ | e, _ | e', body, _⟩ <;>
    simp [parts, repeated, desugared, Stmt.forLoop, test, bodyIds, Stmt.ids]

/-- The scopes around the parts that are repeated. -/
def around (c : Context) (σ : Scopes) : Scopes :=
  match l.initial with
  | none => σ
  | some first => (first.resolve c ([] :: σ)).2

variable {l} {table table' : NodeId → Option Nat} {c : Context} {σ : Scopes}

theorem checked_loop (h : Checked table c σ (.stmt l.desugared)) :
    Checked table c (l.around c σ) (.stmt (.loop l.test l.step)) := by
  rcases l with ⟨_ | first, _, _, _, _⟩
  · exact h
  · exact h.block.moreStmts.firstStmt

theorem checked_repeated (h : Checked table c (l.opened σ) (.body l.parts)) :
    Checked table c (l.around c σ) (.body l.repeated) := by
  rcases l with ⟨_ | first, _, _, _, _⟩
  · exact h
  · exact h.moreStmts

/-- The block for body and increment can be left out. -/
theorem thins_step (h : Checked table c σ (.stmt (.loop l.test l.step))) {gaps : Gaps}
    (hσ : Scopes.Thins gaps σ σ) : Scopes.Thins (true :: gaps) ([] :: σ) σ :=
  .gap h.loopBody.placed.2 hσ

theorem problems_repeated (h : Checked table c σ (.stmt (.loop l.test l.step))) :
    (resolveBody c σ l.repeated).1.problems = [] := by
  have htest := h.loopCondition.sound.problems
  have hσ := thins_step h (Scopes.thins_self σ)
  rcases l with ⟨_, condition, _ | e, body, hquiet⟩
  · have hbody := h.loopBody.sound.problems
    simp only [repeated, Option.map_none, Option.toList_none, resolveBody,
      Findings.problems_append, List.append_nil]
    exact List.append_eq_nil_iff.mpr ⟨htest, hbody⟩
  · have hblock := h.loopBody.block
    have hformed := hblock.firstStmt.formed
    have hbody : (body.resolve c σ).1.problems = [] :=
      (Stmt.problems_thin hσ hformed fun _ => hquiet).trans hblock.firstStmt.sound.problems
    have hincrement := hblock.moreStmts.firstStmt.expression.sound.problems
    rw [Stmt.resolve_snd hformed hquiet] at hincrement
    have hincrement : (e.resolve c σ).problems = [] := (Expr.problems_thin hσ e).trans hincrement
    simp only [repeated, Option.map_some, Option.toList_some, resolveBody, Stmt.resolve,
      Findings.problems_append, List.append_nil, Stmt.resolve_snd hformed hquiet, hbody,
      hincrement]
    exact htest

theorem problems_resolve (h : Checked table c σ (.stmt l.desugared)) :
    (l.resolve c σ).problems = [] := by
  have hrepeated := problems_repeated (checked_loop h)
  rcases l with ⟨_ | first, condition, increment, body, hquiet⟩
  · exact hrepeated
  · exact List.append_eq_nil_iff.mpr ⟨h.block.firstStmt.sound.problems, hrepeated⟩

theorem formed_repeated (h : (Stmt.loop l.test l.step).Formed) : bodyFormed l.repeated := by
  rcases l with ⟨_, condition, _ | e, body, _⟩
  · exact ⟨h.1, h.2.1, trivial⟩
  · exact ⟨h.1, h.2.1⟩

theorem formed_parts (h : Checked table c σ (.stmt l.desugared)) : bodyFormed l.parts := by
  have hrepeated := formed_repeated (checked_loop h).formed
  rcases l with ⟨_ | first, condition, increment, body, _⟩
  · exact hrepeated
  · exact ⟨h.block.firstStmt.formed, hrepeated⟩

theorem placed_opened (h : Checked table c σ (.stmt l.desugared)) :
    Opened c.inClass (l.opened σ) ∧ (l.opened σ).Settled := by
  rcases l with ⟨_ | first, condition, increment, body, hquiet⟩
  · exact h.placed
  · exact h.block.placed

theorem checked_parts (h : Checked table c σ (.stmt l.desugared)) (gap : Nat) :
    Checked (Twin.reading table c (l.opened σ) l.parts gap).table' c (l.opened σ)
      (.body l.parts) :=
  Twin.checked_reading (problems_resolve h) (l.ids_parts ▸ h.sound.distinct) (formed_parts h)
    (placed_opened h) gap

/-! ## The two readings are a twin -/

inductive StepThins (T : Twin) (gaps : Gaps) : Stmt → Option Expr → Stmt → Option Expr → Prop where
  | bare : Stmt.Thins T gaps s s' → StepThins T gaps s none s' none
  | block : Stmt.Thins T (true :: gaps) s s' → Expr.Thins T (true :: gaps) e e' →
      StepThins T gaps s (some e) s' (some e')

structure RoundsThin (T : Twin) (gaps : Gaps) (l l' : ForLoop) : Prop where
  test : Expr.Thins T gaps l.test l'.test
  step : StepThins T gaps l.body l.increment l'.body l'.increment

inductive LoopThins (T : Twin) (gaps : Gaps) (l l' : ForLoop) : Prop where
  | bare : l.initial = none → l'.initial = none → RoundsThin T gaps l l' → LoopThins T gaps l l'
  | opened : l.initial = some first → l'.initial = some first' →
      Stmt.Thins T (false :: gaps) first first' → RoundsThin T (false :: gaps) l l' →
      LoopThins T gaps l l'

variable {T : Twin} {gaps : Gaps}

theorem thins_rounds (h : Checked T.table c σ (.stmt (.loop l.test l.step)))
    (h' : Checked T.table' c σ (.body l.repeated)) (hσ : Scopes.Thins gaps σ σ)
    (hids : bodyIds l.repeated ⊆ T.ids) : RoundsThin T gaps l (l.renumber T.renumber) := by
  obtain ⟨htest, hrest⟩ := List.append_subset.mp hids
  obtain ⟨hbody, hincrement⟩ := List.append_subset.mp hrest
  refine ⟨?_, ?_⟩
  · rw [test_renumber]
    exact Expr.thins hσ h.loopCondition h'.firstStmt.expression htest
  have hthin := thins_step h hσ
  have hrest' := h'.moreStmts
  rcases l with ⟨_, condition, _ | e, body, hquiet⟩
  · exact .bare (body.thins hσ (fun _ => hquiet) h.loopBody hrest'.firstStmt hbody)
  · have hblock := h.loopBody.block
    have hformed := hblock.firstStmt.formed
    have hnext := hblock.moreStmts.firstStmt.expression
    have hnext' := hrest'.moreStmts.firstStmt.expression
    rw [Stmt.resolve_snd hformed hquiet] at hnext hnext'
    exact .block (body.thins hthin (fun _ => hquiet) hblock.firstStmt hrest'.firstStmt hbody)
      (Expr.thins hthin hnext hnext' (List.append_subset.mp hincrement).1)

theorem thins_loop (h : Checked T.table c σ (.stmt l.desugared))
    (h' : Checked T.table' c (l.opened σ) (.body l.parts)) (hσ : Scopes.Thins gaps σ σ)
    (hids : bodyIds l.parts ⊆ T.ids) : LoopThins T gaps l (l.renumber T.renumber) := by
  have hloop := checked_loop h
  have hrepeated := checked_repeated h'
  rcases l with ⟨_ | first, condition, increment, body, hquiet⟩
  · exact .bare rfl rfl (thins_rounds hloop hrepeated hσ hids)
  · obtain ⟨hfirst, hrest⟩ := List.append_subset.mp hids
    have hopened : Scopes.Thins (false :: gaps) ([] :: σ) ([] :: σ) := .scope hσ
    have hafter := hopened.after (c := c) h.block.firstStmt.formed nofun
    exact .opened rfl rfl (first.thins hopened nofun h.block.firstStmt h'.firstStmt hfirst)
      (thins_rounds hloop hrepeated hafter hrest)

end ForLoop

end Lox
