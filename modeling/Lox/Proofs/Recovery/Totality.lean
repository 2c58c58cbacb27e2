import Lox.Proofs.Grammar.Acceptance
import Lox.Proofs.Recovery.Statement

/-!
# Reading never fails

Reading ends on every row of tokens whose closing token is the only one of its kind: it never looks
outside the row and never gives up as a whole.  Each declaration takes tokens, and one that is
dropped leaves a problem behind and has reading go on where the next statement seems to start.
-/

namespace Lox

namespace Row

variable {row : Row} {place after : Place} {n : Nat}

/-! ## Single declarations -/

/-- The declaration at `place` breaks off at a token that a problem is noted at, and reading goes on
from `after`. -/
def BreaksOff (row : Row) (place after : Place) : Prop :=
  ∃ stopped found what,
    declarationForm row.toList place = some (.error .aborted, stopped) ∧
    place.index ≤ stopped.index ∧ place.problems <+: found ∧
    after.problems = found ++ [.atToken (row.token stopped) (.expected what)] ∧
    row.ResumesAt stopped.index after.index

theorem breaksOff_of_none (hrow : row.Single) (h : place.index < row.tokens.length)
    (hdeclaration : declaration row.toList place = some (.ok none, after)) :
    row.BreaksOff place after := by
  obtain ⟨n, hn⟩ : ∃ n, row.tokens.length = place.index + (n + 1) :=
    ⟨row.tokens.length - place.index - 1, by omega⟩
  have hform := tracks_declarationForm hrow (tracks_statement hrow n) (tracksOn_declaration hrow n)
  obtain ⟨result, stopped, hmeets⟩ := hform place (Nat.le_of_lt h) (Nat.le_of_eq hn)
  cases result with
  | some s =>
      rw [declaration_of_value hmeets.byIndex] at hdeclaration
      cases hdeclaration
  | none =>
      obtain ⟨found, what, hfound, hproblems⟩ := hmeets.blames rfl
      obtain ⟨j, -, -, hresumes, hsynchronize, -⟩ := synchronize_apply hrow hmeets.within
      rw [declaration_of_aborted hmeets.byIndex hsynchronize] at hdeclaration
      cases hdeclaration
      exact ⟨stopped, found, what, hmeets.byIndex, hmeets.later, hfound, hproblems, hresumes⟩

theorem declaration_fst_ne_none (n : Nat) (c : Cursor) : (Parse.declaration n c).1 ≠ none := by
  have h (form : Parse Stmt) : (Parse.recovering form c).1 ≠ none := by
    unfold Parse.recovering
    split <;> exact Option.some_ne_none _
  cases n with
  | zero => exact h _
  | succ n => exact h _

theorem declaration_ends (hrow : row.Single) (h : place.index < row.tokens.length) :
    ∃ result after, declaration row.toList place = some (.ok result, after) ∧
      (∀ n, row.tokens.length ≤ place.index + n →
        @Eq (Option (Option Stmt) × Cursor) (Parse.declaration n (row.cursor place))
          (some result, row.cursor after)) ∧
      place.index < after.index ∧ after.index ≤ row.tokens.length := by
  have hwithin := Nat.le_of_lt h
  obtain ⟨result, after, hmeets⟩ := tracksOn_declaration hrow (row.tokens.length - place.index)
    place hwithin (by omega)
  cases result with
  | none => exact absurd (congrArg Prod.fst hmeets.ahead) (declaration_fst_ne_none _ _)
  | some result =>
      have htakes := hmeets.takes nofun
      refine ⟨result, after, hmeets.byIndex, fun n hn => ?_, by omega, hmeets.within⟩
      obtain ⟨result', after', hmeets'⟩ := tracksOn_declaration hrow n place hwithin hn
      obtain ⟨rfl, rfl⟩ := hmeets.unique hmeets'
      exact hmeets'.ahead

/-! ## Whole rows -/

theorem program_end (hrow : row.Single) (h : place.index = row.tokens.length) :
    program row.toList place = some (.ok [], place) := by
  rw [program, declarations_eq, bind_apply, atEnd_apply hrow (Nat.le_of_eq h)]
  dsimp only
  rw [if_pos (decide_eq_true h)]
  rfl

theorem program_cons (hrow : row.Single) (h : place.index < row.tokens.length) {mid : Place}
    {first : Option Stmt} {more : List Stmt}
    (hfirst : declaration row.toList place = some (.ok first, mid))
    (hmore : declarations (fun _ => false) row.toList mid = some (.ok more, after)) :
    program row.toList place = some (.ok (first.toList ++ more), after) := by
  have hwithin := Nat.le_of_lt h
  have hopen : ¬ decide (place.index = row.tokens.length) = true := by
    rw [decide_eq_true_iff]
    exact Nat.ne_of_lt h
  rw [program, declarations_eq, bind_apply, atEnd_apply hrow hwithin]
  dsimp only
  rw [if_neg hopen, bind_apply, current_apply hwithin]
  dsimp only
  rw [if_neg Bool.false_ne_true, bind_apply, hfirst]
  dsimp only
  rw [bind_apply, hmore]
  rfl

theorem tracks_program (hrow : row.Single) (n : Nat) :
    Tracks row n 0 program (Parse.program n) :=
  tracks_declarations hrow _ n n (tracksOn_declaration hrow n) (Nat.le_refl _)

theorem program_reaches_end (hrow : row.Single) (place : Place)
    (h : place.index ≤ row.tokens.length) :
    ∃ statements after, program row.toList place = some (.ok statements, after) ∧
      after.index = row.tokens.length := by
  rcases Nat.lt_or_eq_of_le h with hlt | heq
  · obtain ⟨first, mid, hfirst, -, hlater, hmid⟩ := declaration_ends hrow hlt
    obtain ⟨more, after, hmore, hafter⟩ := program_reaches_end hrow mid hmid
    exact ⟨_, after, program_cons hrow hlt hfirst hmore, hafter⟩
  · exact ⟨[], place, program_end hrow heq, heq⟩
termination_by row.tokens.length - place.index

/-- Declarations that nothing closes go on up to the closing token. -/
theorem program_ends (hrow : row.Single) (place : Place) (h : place.index ≤ row.tokens.length)
    (hn : row.tokens.length ≤ place.index + n) :
    ∃ statements after, program row.toList place = some (.ok statements, after) ∧
      after.index = row.tokens.length ∧
      @Eq (Option (List Stmt) × Cursor) (Parse.program n (row.cursor place))
        (some statements, row.cursor after) := by
  obtain ⟨statements, after, hprogram, hafter⟩ := program_reaches_end hrow place h
  obtain ⟨result, after', hmeets⟩ := tracks_program hrow n place h hn
  cases result with
  | none => cases hmeets.byIndex.symm.trans hprogram
  | some statements' =>
      obtain ⟨rfl, rfl⟩ := hmeets.value_eq hprogram
      exact ⟨_, _, hprogram, hafter, hmeets.ahead⟩

theorem expect_ending (hrow : row.Single) (what : Expectation)
    (h : place.index ≤ row.tokens.length) :
    expect .ending what row.toList place =
      if place.index = row.tokens.length then some (.ok (row.token place), place)
      else refuse what row.toList place := by
  rw [expect, bind_apply, accept?, bind_apply, check_apply _ h]
  dsimp only
  by_cases hkind : (row.token place).kind = .ending
  · rw [if_pos (decide_eq_true hkind), if_pos ((hrow.kind_eq_iff h).mp hkind), bind_apply,
      advance_ending h hkind]
    rfl
  · rw [if_neg (mt of_decide_eq_true hkind), if_neg (mt (hrow.kind_eq_iff h).mpr hkind)]
    rfl

theorem tracks_expectEnd {α : Type} (hrow : row.Single) (what : Expectation) (a : α) :
    Tracks row n 0 (expect .ending what >>= fun _ => pure a)
      (Parse.expectEnd what >>= fun _ => pure a) := by
  intro place hwithin hbound
  have hexpect := expect_ending hrow what hwithin
  have hempty := isEmpty_cursor hwithin
  rcases Nat.lt_or_eq_of_le hwithin with hlt | heq
  · rw [if_neg (Nat.ne_of_lt hlt)] at hexpect
    rw [decide_eq_false (Nat.ne_of_lt hlt)] at hempty
    have hrefuse : Agrees row place 0 (refuse what : Reader α) (Parse.refuse what) :=
      Tracks.refuse what place hwithin hbound
    refine .congr ?_ ?_ hrefuse
    · rw [bind_apply, hexpect]
      simp only [refuse, bind_apply, current_apply hwithin]
      rfl
    · simp only [Parse.expectEnd, Parse.bind_apply, Parse.atEnd_apply, hempty]
      rfl
  · rw [if_pos heq] at hexpect
    rw [decide_eq_true heq] at hempty
    refine .congr ?_ ?_ (.pure hwithin a)
    · rw [bind_apply, hexpect]
    · simp only [Parse.expectEnd, Parse.bind_apply, Parse.atEnd_apply, hempty]
      rfl

theorem tracks_expressionForm (hrow : row.Single) (n : Nat) :
    Tracks row n 1 expressionForm (Parse.wholeExpression n) :=
  (tracks_expression (Nat.le_refl n)).then fun e => tracks_expectEnd hrow _ e

theorem tryCatch_apply {α : Type} (x : Reader α) (handle : Stop → Reader α) (ts : List Token)
    (place : Place) :
    (tryCatch x handle : Reader α) ts place =
      match x ts place with
      | some (.ok a, after) => some (.ok a, after)
      | some (.error stop, after) => handle stop ts after
      | none => none := by
  change (x ts place).bind _ = _
  rcases x ts place with _ | ⟨_ | _, _⟩ <;> rfl

theorem wholeExpression_of_value {e : Expr}
    (h : expressionForm row.toList place = some (.ok e, after)) :
    wholeExpression row.toList place = some (.ok (some e), after) := by
  have hmap : (some <$> expressionForm) row.toList place = some (.ok (some e), after) := by
    change (expressionForm row.toList place).bind _ = _
    rw [h]
    rfl
  rw [wholeExpression, tryCatch_apply, hmap]

theorem wholeExpression_of_aborted
    (h : expressionForm row.toList place = some (.error .aborted, after)) :
    wholeExpression row.toList place = some (.ok none, after) := by
  have hmap : (some <$> expressionForm) row.toList place = some (.error .aborted, after) := by
    change (expressionForm row.toList place).bind _ = _
    rw [h]
    rfl
  rw [wholeExpression, tryCatch_apply, hmap]
  rfl

theorem wholeExpression_ends (hrow : row.Single) (place : Place)
    (h : place.index ≤ row.tokens.length) (hn : row.tokens.length ≤ place.index + n) :
    ∃ tree after, wholeExpression row.toList place = some (.ok tree, after) ∧
      after.index ≤ row.tokens.length ∧
      @Eq (Option Expr × Cursor) (Parse.wholeExpression n (row.cursor place))
        (tree, row.cursor after) := by
  obtain ⟨result, after, hmeets⟩ := tracks_expressionForm hrow n place h hn
  refine ⟨result, after, ?_, hmeets.within, hmeets.ahead⟩
  cases result with
  | none => exact wholeExpression_of_aborted hmeets.byIndex
  | some e => exact wholeExpression_of_value hmeets.byIndex

end Row

/-! ## Sources -/

def Scan.row (s : Scan) (hending : s.ending.kind = .ending) : Row :=
  ⟨s.tokens, s.ending, hending⟩

theorem Scan.readProgram_eq {s : Scan} {i : NodeId} {statements : List Stmt} {c : Cursor}
    (h : @Eq (Option (List Stmt) × Cursor) (Parse.program s.tokens.length (s.cursor i))
      (some statements, c)) : s.readProgram i = ⟨statements, c.problems, c.ledger⟩ := by
  rw [Scan.readProgram, h]
  rfl

theorem Scan.readExpression_eq {s : Scan} {i : NodeId} {tree : Option Expr} {c : Cursor}
    (h : @Eq (Option Expr × Cursor) (Parse.wholeExpression s.tokens.length (s.cursor i))
      (tree, c)) : s.readExpression i = ⟨tree, c.problems, c.ledger⟩ := by
  rw [Scan.readExpression, h]

/--
Reading a row whose closing token is the only one of its kind ends, with a place in the row, and
gives what reading the tokens ahead gives.  A program is read up to the closing token.  Every
declaration takes tokens; one without a result has noted a problem, and reading goes on at the next
start of a statement.  Where no problem is noted, every token stands in the statements that were
read.
-/
theorem Scan.reading_total (s : Scan) (nextId : NodeId) (hending : s.ending.kind = .ending)
    (honly : ∀ t ∈ s.tokens, t.kind ≠ .ending) :
    let row := s.row hending
    let start : Place := ⟨0, .start nextId, []⟩
    (∃ statements after, Row.program row.toList start = some (.ok statements, after) ∧
      after.index = s.tokens.length ∧
      s.readProgram nextId = ⟨statements, after.problems, after.ledger⟩) ∧
    (∃ tree after, Row.wholeExpression row.toList start = some (.ok tree, after) ∧
      after.index ≤ s.tokens.length ∧
      s.readExpression nextId = ⟨tree, after.problems, after.ledger⟩) ∧
    (∀ place : Place, place.index < s.tokens.length →
      ∃ result after, Row.declaration row.toList place = some (.ok result, after) ∧
        (∀ n, s.tokens.length ≤ place.index + n →
          @Eq (Option (Option Stmt) × Cursor) (Parse.declaration n (row.cursor place))
            (some result, row.cursor after)) ∧
        place.index < after.index ∧ after.index ≤ s.tokens.length ∧
        (result = none → row.BreaksOff place after)) ∧
    ((s.readProgram nextId).problems = [] → ∃ phrases j,
      Grammar.Program (.start nextId) s.tokens phrases j ∧
      (s.readProgram nextId).tree = desugarAll phrases ∧
      Spells (marksOfAll phrases) s.tokens []) := by
  intro row start
  have hrow : row.Single := honly
  refine ⟨?_, ?_, fun place hplace => ?_, fun hproblems => ?_⟩
  · obtain ⟨statements, after, hprogram, hafter, hahead⟩ :=
      Row.program_ends hrow start (Nat.zero_le _) (Nat.le_add_left s.tokens.length 0)
    exact ⟨statements, after, hprogram, hafter, Scan.readProgram_eq hahead⟩
  · obtain ⟨tree, after, hwhole, hafter, hahead⟩ :=
      Row.wholeExpression_ends hrow start (Nat.zero_le _) (Nat.le_add_left s.tokens.length 0)
    exact ⟨tree, after, hwhole, hafter, Scan.readExpression_eq hahead⟩
  · obtain ⟨result, after, hdeclaration, hahead, hlater, hwithin⟩ :=
      Row.declaration_ends hrow hplace
    exact ⟨result, after, hdeclaration, hahead, hlater, hwithin,
      fun hnone => Row.breaksOff_of_none hrow hplace (hnone ▸ hdeclaration)⟩
  · obtain ⟨phrases, j, hphrases⟩ := (Grammar.readProgram_problems_eq_nil_iff hending).mp hproblems
    refine ⟨phrases, j, hphrases, ?_, hphrases.spells⟩
    rw [Grammar.readProgram_eq_of_reads (hphrases.reads hending)]

/-- Behind the semicolon that is no expression, reading goes on with a statement that the end breaks
off. -/
theorem Scan.reading_total_brokenOff :
    let s := Scan.ofSource "print ; a"
    let start : Place := ⟨0, .start 0, []⟩
    ∃ hending : s.ending.kind = .ending, (∀ t ∈ s.tokens, t.kind ≠ .ending) ∧
      (∃ after, Row.program (s.row hending).toList start = some (.ok [], after) ∧
        after.index = 3 ∧ after.problems.length = 2) ∧
      ∃ after, Row.declaration (s.row hending).toList start = some (.ok none, after) ∧
        after.index ≤ 3 ∧ (s.row hending).BreaksOff start after := by
  intro s start
  have hending : s.ending.kind = .ending := by rfl
  have honly : ∀ t ∈ s.tokens, t.kind ≠ .ending := by decide
  obtain ⟨⟨statements, after, hprogram, hafter, hread⟩, -, hdeclarations, -⟩ :=
    s.reading_total 0 hending honly
  refine ⟨hending, honly, ⟨after, ?_, hafter, ?_⟩, ?_⟩
  · have hnil : (s.readProgram 0).tree = [] := by rfl
    rw [hread] at hnil
    rw [hprogram, show statements = [] from hnil]
  · have hproblems : (s.readProgram 0).problems.length = 2 := by rfl
    rw [hread] at hproblems
    exact hproblems
  · obtain ⟨result, after, hdeclaration, hahead, hlater, hwithin, hbreaks⟩ :=
      hdeclarations start (by decide)
    have hnone : (Parse.declaration 3 ((s.row hending).cursor start)).1 = some none := by rfl
    rw [hahead 3 (by decide)] at hnone
    cases hnone
    exact ⟨after, hdeclaration, hwithin, hbreaks rfl⟩

end Lox
