import Lox.Proofs.Grammar.Extension
import Lox.Proofs.Joining.Text
import Lox.Proofs.Scoping.Acceptance

/-!
# Expressions with a name

An expression becomes a program if a global variable is declared with it.  The source of the program
has the same tokens in the same lines, behind those of the declaration, and the tree of the expression
is the same, down to the numbers of its references.  A comment at the end of the expression does no
harm, as the semicolon stands on a line of its own.
-/

namespace Lox

/-- The source of a program that gives a name to the value of an expression. -/
def naming (name source : String) : String :=
  "var " ++ name ++ " = " ++ source ++ "\n;"

def IsName (name : String) : Prop :=
  IsWord name.toList ∧ Token.Kind.ofWord name = .name

/-! ## Pieces -/

namespace Piece

variable {text rest : List Char}

theorem split_word_before (h : IsWord text) {stop : Char} (hstop : isWordChar stop = false) :
    split (text ++ stop :: rest) =
      .token (Token.Kind.ofWord (String.ofList text)) text :: split (stop :: rest) := by
  cases h with
  | @mk c more hc hmore =>
      have hall : ∀ d ∈ c :: more, isWordChar d = true := by
        intro d hd
        rcases List.mem_cons.mp hd with rfl | hd
        · exact isWordChar_of_isLetter hc
        · exact hmore d hd
      have hblank : isBlank c = false := by
        rw [← Bool.not_eq_true, isBlank_iff]
        intro hmem
        simp only [List.mem_cons, List.not_mem_nil, or_false] at hmem
        rcases hmem with rfl | rfl | rfl | rfl <;> exact absurd hc (by decide)
      have hquote : c ≠ '"' := by
        rintro rfl
        exact absurd hc (by decide)
      have hfirst : first c (more ++ stop :: rest) =
          (.token (Token.Kind.ofWord (String.ofList (c :: more))) (c :: more), stop :: rest) := by
        unfold first word
        rw [if_neg (by simp [hblank]), if_neg hquote, if_neg (by simp [not_isDigit_of_isLetter hc]),
          if_pos hc, ← List.cons_append, takeWhile_before hstop, dropWhile_before hstop,
          List.takeWhile_eq_self_iff.mpr hall, List.dropWhile_eq_nil_iff.mpr hall]
        rfl
      rw [List.cons_append, split_cons, hfirst]

theorem split_word (h : IsWord text) :
    split (text ++ ' ' :: rest) =
      .token (Token.Kind.ofWord (String.ofList text)) text :: .blank ' ' :: split rest := by
  rw [split_word_before h (by decide), split_cons]
  rfl

end Piece

/-! ## Tokens -/

def declarationTokens (name : String) : List Token :=
  [Scan.token 1 .kwVar "var".toList, Scan.token 1 .name name.toList, Scan.token 1 .equal "=".toList]

theorem lineBreaks_word {text : List Char} (h : IsWord text) : Scan.lineBreaks text = 0 := by
  have hbreak : '\n' ∉ text := by
    cases h with
    | @mk c more hc hmore =>
        intro hmem
        rcases List.mem_cons.mp hmem with rfl | hmem
        · exact absurd hc (by decide)
        · exact absurd (hmore _ hmem) (by decide)
  exact List.count_eq_zero.mpr hbreak

namespace Scan

variable {name source : String}

theorem ofSource_declaration (hname : IsName name) (source : String) :
    ofSource ("var " ++ name ++ " = " ++ source) =
      { ofSource source with tokens := declarationTokens name ++ (ofSource source).tokens } := by
  have hword := hname.1
  have hkind : Token.Kind.ofWord (String.ofList name.toList) = .name := by
    rw [String.ofList_toList]
    exact hname.2
  have hvar : IsWord "var".toList := .mk (by decide) (List.all_eq_true.mp (by decide))
  have htext : ("var " ++ name ++ " = " ++ source).toList =
      "var".toList ++ ' ' :: (name.toList ++ ' ' :: '=' :: ' ' :: source.toList) := by
    simp
  have hequal : Piece.split ('=' :: ' ' :: source.toList) =
      .token .equal ['='] :: .blank ' ' :: Piece.split source.toList := by
    rw [Piece.split_cons, show Piece.first '=' (' ' :: source.toList) =
      (.token .equal ['='], ' ' :: source.toList) from rfl, Piece.split_cons]
    rfl
  have hlines : ∀ line : Int, line + lineBreaks name.toList = line := by
    intro line
    rw [lineBreaks_word hword]
    exact Int.add_zero line
  unfold ofSource
  rw [htext, Piece.split_word hvar, Piece.split_word hword, hequal, hkind]
  simp only [ofPieces, Piece.text, hlines]
  rfl

/-- The source of the declaration has the tokens of the expression in their lines. -/
theorem ofSource_naming (hname : IsName name) (hnone : (ofSource source).problems = []) :
    (ofSource (naming name source)).problems = [] ∧ ∃ semicolon, semicolon.kind = .semicolon ∧
      (ofSource (naming name source)).tokens =
        declarationTokens name ++ ((ofSource source).tokens ++ [semicolon]) := by
  have hdeclaration := ofSource_declaration hname source
  have hbefore : (ofSource ("var " ++ name ++ " = " ++ source)).problems = [] := by
    rw [hdeclaration]
    exact hnone
  have hjoined : naming name source = joined ("var " ++ name ++ " = " ++ source) ";" := by
    apply String.toList_inj.mp
    simp [naming, joined]
  have hassoc := List.append_assoc (declarationTokens name) (ofSource source).tokens
  rw [hjoined, ofSource_joined hbefore, hdeclaration]
  exact ⟨rfl, _, rfl, hassoc _⟩

end Scan

/-! ## Trees -/

namespace Grammar

open Parse

theorem expression_of_reading {s : Scan} {i : NodeId} {e : Expr} (hending : s.ending.kind = .ending)
    (htree : (s.readExpression i).tree = some e) (hnone : (s.readExpression i).problems = []) :
    ∃ j, j.nextId = (s.readExpression i).nextId ∧ Expression (.start i) s.tokens e j [] := by
  have hproblems :
      (wholeExpression s.tokens.length ⟨s.tokens, s.ending, .start i, []⟩).2.problems = [] :=
    hnone
  obtain ⟨found, j, rest, hread⟩ := reads_of_problems_nil hproblems
  have hwhole : s.readExpression i = ⟨some found, [], j⟩ := by
    unfold Reads at hread
    unfold Scan.readExpression Scan.cursor
    rw [hread]
  rw [hwhole] at htree
  obtain rfl := Option.some.inj htree
  unfold wholeExpression at hread
  obtain ⟨inner, _, us, hinner, hrest⟩ := hread.of_bind
  obtain ⟨_, _, vs, hend, hpure⟩ := hrest.of_bind
  obtain ⟨rfl, rfl, rfl⟩ := reads_pure.mp hpure
  simp only [expectEnd, reads_atEnd_bind] at hend
  split at hend
  · next hempty =>
      obtain ⟨-, rfl, rfl⟩ := reads_pure.mp hend
      rw [List.isEmpty_iff.mp hempty] at hinner
      exact ⟨_, by rw [hwhole]; rfl, expression_sound hending _ (Nat.le_refl _) hinner⟩
  · exact absurd hend reads_refuse

end Grammar

variable {name source : String} {i : NodeId} {e : Expr}

theorem reading_of_compileExpression (h : (compileExpression source i).tree = .ok e) :
    (Scan.ofSource source).problems = [] ∧
      ((Scan.ofSource source).readExpression i).problems = [] := by
  have hread := (read_of_compileExpression h).1
  unfold compileExpression at h
  simp only [hread, List.isEmpty_iff] at h
  by_cases hnone : (Scan.ofSource source).problems ++
      ((Scan.ofSource source).readExpression i).problems = []
  · exact List.append_eq_nil_iff.mp hnone
  · rw [if_neg hnone, if_neg hnone] at h
    cases h

/-- An accepted expression with a name is an accepted program of one statement.  None of its references
is found in a scope. -/
theorem compile_naming (hname : IsName name) (h : (compileExpression source i).tree = .ok e) :
    (compile (naming name source) i).problems = [] ∧
      (compile (naming name source) i).statements =
        [.var (Scan.token 1 .name name.toList) (some e)] ∧
      (compile (naming name source) i).references = [] ∧
      (compile (naming name source) i).nextId = (compileExpression source i).nextId := by
  obtain ⟨hread, hresolve⟩ := read_of_compileExpression h
  obtain ⟨hwords, hgrammar⟩ := reading_of_compileExpression h
  obtain ⟨j, hj, hexpression⟩ :=
    Grammar.expression_of_reading (Scan.ending_ofSource source) hread hgrammar
  obtain ⟨hnone, semicolon, hsemicolon, htokens⟩ := Scan.ofSource_naming hname hwords
  have hdeclaration : Grammar.VarDecl (.start i)
      (declarationTokens name ++ ((Scan.ofSource source).tokens ++ [semicolon]))
      (.var (Scan.token 1 .name name.toList) (some e)) j [] :=
    .initialised rfl rfl rfl (hexpression.extend [semicolon]) hsemicolon
  have hprogram : Grammar.Program (.start i) (Scan.ofSource (naming name source)).tokens
      [.var (Scan.token 1 .name name.toList) (some e)] j := by
    rw [htokens]
    exact .cons (.var hdeclaration) .nil
  have hfindings : resolveProgram (desugarAll [.var (Scan.token 1 .name name.toList) (some e)]) =
      .ofProblems [] ++ e.resolve {} [] ++ {} := rfl
  rw [compile_of_program hnone hprogram, nextId_compileExpression, ← hj, hfindings]
  refine ⟨?_, rfl, ?_, rfl⟩
  · rw [Findings.problems_append, Findings.problems_append, hresolve]
    rfl
  · rw [Findings.references_append, Findings.references_append, e.references_globals {}]
    rfl

end Lox
