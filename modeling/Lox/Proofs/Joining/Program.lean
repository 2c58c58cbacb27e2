import Lox.Proofs.Grammar.Extension
import Lox.Proofs.Joining.Text
import Lox.Proofs.Moving.Reading
import Lox.Proofs.Scoping.Acceptance

/-!
# Programs one after the other

Nothing that a program declares outside of blocks and functions is in a scope that resolution keeps
track of.  So a program behind another one is read and resolved as if it stood alone, only further
down.
-/

namespace Lox

variable {before after source : String} {i : NodeId}

/-! ## Further down -/

theorem Scan.readProgram_down (s : Scan) (k : Int) (i : NodeId) :
    (s.down k).readProgram i =
      { tree := movedBody k (fun id => id) (s.readProgram i).tree
        problems := (s.readProgram i).problems.map (Diagnostic.down k)
        ledger := (s.readProgram i).ledger.moved k 0 [] } := by
  have h := Parse.moves_program s.tokens.length (k := k) (d := 0) [] (s.cursor i)
  have hcursor : (s.cursor i).moved k 0 [] = (s.down k).cursor i := rfl
  have hlength : (s.down k).tokens.length = s.tokens.length := List.length_map _
  rw [hcursor] at h
  unfold Scan.readProgram
  rw [hlength, h]
  rcases Parse.program s.tokens.length (s.cursor i) with ⟨_ | statements, c⟩ <;> rfl

theorem Parse.Moves.reads {α β : Type} {f : α → β} {p : Parse α} {q : Parse β} {k : Int}
    (hmoves : Moves k 0 f p q) (behind : List Expr) {ending : Token} {l l' : Ledger}
    {ts rest : List Token} {a : α} (h : Reads p ending l ts a l' rest) :
    Reads q (ending.down k) (l.moved k 0 behind) (ts.map (Token.down k)) (f a)
      (l'.moved k 0 behind) (rest.map (Token.down k)) := by
  have hmoved := hmoves behind ⟨ts, ending, l, []⟩
  unfold Reads at h
  rw [h] at hmoved
  exact hmoved

/-- A program that stands behind others and further down. -/
theorem Grammar.Program.down {ts : List Token} {phrases : List Phrase} {j : Ledger} (k : Int)
    (l : Ledger) (h : Program (.start l.nextId) ts phrases j) :
    ∃ phrases', Program l (ts.map (Token.down k)) phrases' (j.moved k 0 l.built) ∧
      desugarAll phrases' = movedBody k (fun id => id) (desugarAll phrases) := by
  have hread := (Parse.moves_program ts.length).reads (k := k) l.built
    (h.reads (show (Token.atEnd 1).kind = .ending from rfl))
  rw [← List.length_map (Token.down k)] at hread
  obtain ⟨phrases', htree, h', -⟩ := Parse.program_sound rfl hread
  exact ⟨phrases', h', htree⟩

theorem compile_lowered (n : Nat) (source : String) (i : NodeId) :
    compile (lowered n source) i =
      { scan := (compile source i).scan.down n
        statements := movedBody n (fun id => id) (compile source i).statements
        references := (compile source i).references.map (Reference.moved n fun id => id)
        problems := (compile source i).problems.map (Diagnostic.down n)
        resolved := (compile source i).resolved
        nextId := (compile source i).nextId } := by
  simp only [compile, Scan.ofSource_lowered, Scan.readProgram_down, resolveProgram_moved]
  simp only [Scan.down, ← List.map_append, List.isEmpty_map]
  split
  · rfl
  · rfl

/-! ## Resolution -/

theorem Findings.append_assoc (a b c : Findings) : a ++ b ++ c = a ++ (b ++ c) := by
  change Findings.append (Findings.append a b) c = Findings.append a (Findings.append b c)
  simp only [Findings.append, List.append_assoc, Option.or_assoc]

theorem Stmt.resolve_outside : ∀ (s : Stmt) (c : Context), (s.resolve c []).2 = []
  | .expression _, _ | .print _, _ | .block _, _ | .missing, _ | .misplaced _, _ => rfl
  | .var _ none, _ | .var _ (some _), _ | .ret _ none, _ | .ret _ (some _), _ => rfl
  | .function _, _ | .classDecl _ none _, _ | .classDecl _ (some (_, _)) _, _ => rfl
  | .cond _ yes none, c => yes.resolve_outside c
  | .cond _ yes (some no), c => by
      simp only [Stmt.resolve, yes.resolve_outside c]
      exact no.resolve_outside c
  | .loop _ body, c => body.resolve_outside c

theorem resolveProgram_append (program program' : List Stmt) :
    resolveProgram (program ++ program') = resolveProgram program ++ resolveProgram program' := by
  unfold resolveProgram
  induction program with
  | nil => rfl
  | cons s program ih =>
      simp only [List.cons_append, resolveBody, s.resolve_outside, ih, Findings.append_assoc]

theorem desugarAll_append (phrases phrases' : List Phrase) :
    desugarAll (phrases ++ phrases') = desugarAll phrases ++ desugarAll phrases' := by
  induction phrases with
  | nil => rfl
  | cons phrase phrases ih => simp only [List.cons_append, desugarAll, ih]

/-! ## Joined programs -/

/-- A program behind another one is accepted if both are, and its statements follow those of the other
one, further down. -/
theorem compile_joined (hbefore : (compile before i).problems = [])
    (hafter : (compile after (compile before i).nextId).problems = []) :
    compile (joined before after) i =
      { scan := Scan.ofSource (joined before after)
        statements := (compile before i).statements ++ movedBody (linesOf before) (fun id => id)
          (compile after (compile before i).nextId).statements
        references := (compile before i).references ++
          (compile after (compile before i).nextId).references.map
            (Reference.moved (linesOf before) fun id => id)
        problems := []
        resolved := true
        nextId := (compile after (compile before i).nextId).nextId } := by
  obtain ⟨hscan, phrases, j, hphrases, hresolved⟩ := program_of_compile hbefore
  rw [compile_of_program hscan hphrases] at hafter ⊢
  obtain ⟨hscan', phrases', k, hphrases', hresolved'⟩ := program_of_compile hafter
  rw [compile_of_program hscan' hphrases']
  obtain ⟨moved, hmoved, htree⟩ := hphrases'.down (linesOf before) j
  have hjoined := Scan.ofSource_joined hscan after
  have hproblems : (Scan.ofSource (joined before after)).problems = [] := by
    rw [hjoined]
    simp [Scan.down, hscan']
  have hprogram : Grammar.Program (.start i) (Scan.ofSource (joined before after)).tokens
      (phrases ++ moved) (k.moved (linesOf before) 0 j.built) := by
    rw [hjoined]
    exact hphrases.append hmoved
  rw [compile_of_program hproblems hprogram, desugarAll_append, htree, resolveProgram_append,
    resolveProgram_moved]
  simp only [Findings.references_append, Findings.problems_append, Findings.moved, hresolved,
    hresolved', List.map_nil, List.append_nil]
  rfl

end Lox
