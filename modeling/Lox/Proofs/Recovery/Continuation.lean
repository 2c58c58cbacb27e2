import Lox.Proofs.Grammar.Acceptance
import Lox.Proofs.Grammar.Extension
import Lox.Proofs.Moving.Reading
import Lox.Proofs.Recovery.Totality

/-!
# Behind a program without problems

What comes behind a program that is read without a problem is read as if it stood alone, also where
it breaks off: nothing in the program depends on what follows, and nothing that follows on the
program.  Only an `else` could be taken by the program before it.
-/

namespace Lox

open Parse

/-- The bounds on the tokens ahead do not show in how declarations are read. -/
theorem Parse.declarations_bound {row : Row} (hrow : row.Single) (closes : Token → Bool)
    {m n : Nat} (hm : row.tokens.length ≤ m) (hn : row.tokens.length ≤ n) (i : Ledger) :
    declarations closes (declaration m) n ⟨row.tokens, row.ending, i, []⟩ =
      declarations closes (declaration row.tokens.length) row.tokens.length
        ⟨row.tokens, row.ending, i, []⟩ := by
  have htracks {k l : Nat} (hk : row.tokens.length ≤ k) (hl : row.tokens.length ≤ l) :=
    Row.tracks_declarations hrow closes l row.tokens.length
      ((Row.tracksOn_declaration hrow k).mono hk) hl
  exact (htracks hm hn).eq (htracks (Nat.le_refl _) (Nat.le_refl _)) ⟨0, i, []⟩
    (Nat.zero_le _) (Nat.le_add_left _ _) (Nat.le_add_left _ _)

namespace Grammar

variable {row : Row}

/-- Declarations without a problem are read, and then what is behind them. -/
theorem Declarations.reads_before (hrow : row.Single)
    (helse : headKind row.tokens ≠ some .kwElse) {i j : Ledger} {ts : List Token}
    {phrases : List Phrase} (h : Declarations i ts phrases j []) {m n : Nat}
    (hm : ts.length + row.tokens.length ≤ m) (hn : ts.length + row.tokens.length ≤ n) :
    @Eq (Option (List Stmt) × Cursor)
      (declarations (fun _ => false) (declaration m) n ⟨ts ++ row.tokens, row.ending, i, []⟩)
      (let (statements, c) := program row.tokens.length ⟨row.tokens, row.ending, j, []⟩
      (statements.map (desugarAll phrases ++ ·), c)) := by
  induction phrases generalizing i ts n with
  | nil =>
      cases h
      rw [List.length_nil, Nat.zero_add] at hm hn
      have hbound := declarations_bound hrow (fun _ => false) hm hn j
      rw [List.nil_append, hbound]
      exact Prod.ext (congrFun Option.map_id _).symm rfl
  | cons phrase phrases ih =>
      obtain ⟨⟩ | ⟨h, hmore⟩ := h
      rename_i us
      have hlength := h.length_lt
      obtain ⟨n, rfl⟩ : ∃ n', n = n' + 1 := ⟨n - 1, by omega⟩
      have hfollower : headKind (us ++ row.tokens) ≠ some .kwElse :=
        (hmore.extend row.tokens).headKind_ne_else helse
      have hfirst := (h.extend row.tokens).reads row.closed (n := m)
        (by rw [List.length_append]; exact hm) hfollower
      have hothers := ih hmore (n := n) (by omega) (by omega)
      obtain ⟨t, vs, rfl, -⟩ := h.starts
      unfold Reads at hfirst
      rw [List.cons_append] at hfirst ⊢
      simp only [declarations, bind_apply, get_apply, hfirst, Bool.false_eq_true, if_false, hothers]
      rcases program row.tokens.length ⟨row.tokens, row.ending, j, []⟩ with ⟨_ | statements, c⟩
      · rfl
      · rfl

end Grammar

theorem Scan.le_nextId_readProgram (s : Scan) (i : NodeId) : i ≤ (s.readProgram i).nextId :=
  (Steady.builds (p := program s.tokens.length) (s.cursor i)).le

/--
Behind a program without problems, the tokens of any row that does not start with `else` are read as
if they stood alone: the same statements follow those of the program, only with later numbers for
nodes, and the same problems are noted.
-/
theorem Scan.readProgram_behind (before after : Scan) (i : NodeId)
    (hbefore : before.ending.kind = .ending) (hclean : (before.readProgram i).problems = [])
    (hafter : after.ending.kind = .ending) (honly : ∀ t ∈ after.tokens, t.kind ≠ .ending)
    (helse : headKind after.tokens ≠ some .kwElse) :
    let joined : Scan := { after with tokens := before.tokens ++ after.tokens }
    let later := (before.readProgram i).nextId - i
    (joined.readProgram i).tree =
        (before.readProgram i).tree ++ movedBody 0 (· + later) (after.readProgram i).tree ∧
      (joined.readProgram i).problems = (after.readProgram i).problems := by
  intro joined later
  obtain ⟨phrases, j, hphrases⟩ := (Grammar.readProgram_problems_eq_nil_iff hbefore).mp hclean
  have hread : before.readProgram i = ⟨desugarAll phrases, [], j⟩ :=
    Grammar.readProgram_eq_of_reads (hphrases.reads hbefore)
  have hj : j.nextId = i + later := by
    have hle := before.le_nextId_readProgram i
    change j.nextId = i + ((before.readProgram i).nextId - i)
    rw [hread] at hle ⊢
    exact (Nat.add_sub_cancel' hle).symm
  let row := after.row hafter
  have hrow : row.Single := honly
  obtain ⟨statements, place, -, -, halone⟩ := Row.program_ends hrow ⟨0, .start i, []⟩
    (Nat.zero_le _) (Nat.le_add_left row.tokens.length 0)
  have hstart : (after.cursor i).ledger.moved 0 later j.built = j := by
    change Ledger.mk (i + later) j.built = j
    rw [← hj]
  have hmoved := (moves_program after.tokens.length).later later j.built (after.cursor i)
  have hprogram : program after.tokens.length (after.cursor i) = (some statements, row.cursor place) :=
    halone
  rw [hprogram, hstart] at hmoved
  have hbehind := hphrases.reads_before hrow helse
    (m := joined.tokens.length) (n := joined.tokens.length)
    (Nat.le_of_eq List.length_append.symm) (Nat.le_of_eq List.length_append.symm)
  change program row.tokens.length ⟨row.tokens, row.ending, j, []⟩ = _ at hmoved
  rw [hmoved] at hbehind
  have hafterAlone : after.readProgram i = ⟨statements, place.problems, place.ledger⟩ :=
    Scan.readProgram_eq halone
  have hjoined : joined.readProgram i =
      ⟨desugarAll phrases ++ movedBody 0 (· + later) statements, place.problems,
        place.ledger.moved 0 later j.built⟩ :=
    Scan.readProgram_eq hbehind
  rw [hjoined, hread, hafterAlone]
  exact ⟨rfl, rfl⟩

/-- A loop and an assignment that break off, behind an `if` that could still take an `else`. -/
theorem Scan.readProgram_behind_if :
    let before := Scan.ofSource "var f; if (f) g = f(1);"
    let after := Scan.ofSource "while (x y; var a = b; z = f(1 +"
    let joined : Scan := { after with tokens := before.tokens ++ after.tokens }
    before.ending.kind = .ending ∧ (before.readProgram 0).problems = [] ∧
      after.ending.kind = .ending ∧ (∀ t ∈ after.tokens, t.kind ≠ .ending) ∧
      headKind after.tokens ≠ some .kwElse ∧ (before.readProgram 0).nextId = 6 ∧
      (joined.readProgram 0).tree =
        (before.readProgram 0).tree ++ movedBody 0 (· + 6) (after.readProgram 0).tree ∧
      (joined.readProgram 0).problems = (after.readProgram 0).problems := by
  intro before after joined
  have hbefore : before.ending.kind = .ending := by rfl
  have hclean : (before.readProgram 0).problems = [] := by rfl
  have hafter : after.ending.kind = .ending := by rfl
  have honly : ∀ t ∈ after.tokens, t.kind ≠ .ending := by decide
  have helse : headKind after.tokens ≠ some .kwElse := by decide
  have hnext : (before.readProgram 0).nextId = 6 := by rfl
  obtain ⟨htree, hproblems⟩ :=
    Scan.readProgram_behind before after 0 hbefore hclean hafter honly helse
  rw [hnext] at htree
  exact ⟨hbefore, hclean, hafter, honly, helse, hnext, htree, hproblems⟩

/-- What starts with `else` is a problem when it stands alone, but none behind an `if`. -/
example : ((Scan.ofSource "else c;").readProgram 0).problems.length = 1 ∧
    ((Scan.ofSource "if (a) b; else c;").readProgram 0).problems = [] :=
  ⟨rfl, rfl⟩

end Lox
