import Lox.Proofs.Grammar.Spelling
import Lox.Proofs.Grammar.Unambiguity

/-!
# Reading accepts exactly the programs of the grammar

Tokens are read without a problem if and only if they derive from the grammar.  The phrases that
they derive from are then the only ones, the statements read are their trees, and every token of the
source stands in them once and in its place.
-/

namespace Lox.Grammar

open Parse

variable {ending : Token} {i j : Ledger} {nextId : NodeId} {ts : List Token}

theorem Program.reads (hending : ending.kind = .ending) {phrases : List Phrase}
    (h : Program i ts phrases j) :
    Reads (program ts.length) ending i ts (desugarAll phrases) j [] :=
  Declarations.reads hending h (Nat.le_refl _) (Nat.le_refl _) nofun nofun

/-- A steady step that leaves no problem behind has read something. -/
theorem reads_of_problems_nil {α : Type} {p : Parse α} [hp : Steady p]
    (h : (p ⟨ts, ending, i, []⟩).2.problems = []) :
    ∃ a j rest, Reads p ending i ts a j rest := by
  have hending := hp.ending ⟨ts, ending, i, []⟩
  have hblames := hp.blames ⟨ts, ending, i, []⟩
  unfold Reads
  rcases hstep : p ⟨ts, ending, i, []⟩ with ⟨a | a, c⟩
  · rw [hstep] at h hblames
    exact absurd h (hblames rfl)
  · rw [hstep] at h hending
    obtain ⟨rest, _, j, problems⟩ := c
    simp only at h hending
    subst h hending
    exact ⟨a, j, rest, rfl⟩

theorem readProgram_eq_of_reads {s : Scan} {stmts : List Stmt} {rest : List Token}
    (h : Reads (program s.tokens.length) s.ending (.start nextId) s.tokens stmts j rest) :
    s.readProgram nextId = ⟨stmts, [], j⟩ := by
  unfold Reads at h
  unfold Scan.readProgram Scan.cursor
  rw [h]
  rfl

/-- Reading notes no problem exactly for the programs of the grammar. -/
theorem readProgram_problems_eq_nil_iff {s : Scan} (hending : s.ending.kind = .ending) :
    (s.readProgram nextId).problems = [] ↔
      ∃ phrases j, Program (.start nextId) s.tokens phrases j := by
  constructor
  · intro h
    have hproblems : (program s.tokens.length ⟨s.tokens, s.ending, .start nextId, []⟩).2.problems = [] :=
      h
    obtain ⟨stmts, j, rest, hread⟩ := reads_of_problems_nil hproblems
    obtain ⟨phrases, -, hphrases, -⟩ := program_sound hending hread
    exact ⟨phrases, j, hphrases⟩
  · rintro ⟨phrases, j, hphrases⟩
    rw [readProgram_eq_of_reads (hphrases.reads hending)]

theorem readProgram_grammatical (s : Scan) (nextId : NodeId)
    (hending : s.ending.kind = .ending) :
    ((s.readProgram nextId).problems = [] ↔
      ∃ phrases j, Program (.start nextId) s.tokens phrases j) ∧
    ∀ phrases j, Program (.start nextId) s.tokens phrases j →
      s.readProgram nextId = ⟨desugarAll phrases, [], j⟩ ∧
      (∀ phrases' j', Program (.start nextId) s.tokens phrases' j' → phrases' = phrases ∧ j' = j) ∧
      Spells (marksOfAll phrases) s.tokens [] := by
  refine ⟨readProgram_problems_eq_nil_iff hending, fun phrases j h => ?_⟩
  exact ⟨readProgram_eq_of_reads (h.reads hending), fun _ _ h' => h'.unique h, h.spells⟩

/-- An `else` behind two `if`s belongs to the inner one. -/
theorem readProgram_grammatical_danglingElse :
    let s := Scan.ofSource "if (a) if (b) c; else d;"
    s.ending.kind = .ending ∧
    (∃ a b c d, (s.readProgram 0).tree = [.cond a (.cond b c (some d)) none]) ∧
    ∃ phrases j, Program (.start 0) s.tokens phrases j ∧
      s.readProgram 0 = ⟨desugarAll phrases, [], j⟩ ∧ Spells (marksOfAll phrases) s.tokens [] := by
  intro s
  have hending : s.ending.kind = .ending := by rfl
  obtain ⟨haccepts, hderived⟩ := readProgram_grammatical s 0 hending
  obtain ⟨phrases, j, h⟩ := haccepts.mp (by rfl)
  obtain ⟨hread, -, hspells⟩ := hderived phrases j h
  exact ⟨hending, ⟨_, _, _, _, rfl⟩, phrases, j, h, hread, hspells⟩

end Lox.Grammar
