import Lox.Proofs.Token.Division
import Lox.Proofs.Grammar.Acceptance
import Lox.Proofs.Grammar.Numbering
import Lox.Proofs.Grammar.Trees
import Lox.Proofs.Scoping.Checked

/-!
# Accepted sources

A program or expression that compilation accepts is checked, with the distances that compilation
found, and its references have numbers of their own.
-/

namespace Lox

/-! ## Scanned tokens -/

theorem Token.Kind.mem_keywords {word : String} {kind : Token.Kind}
    (h : Token.Kind.ofWord word = kind) (hkind : kind ≠ .name) : (word, kind) ∈ Token.keywords := by
  unfold Token.Kind.ofWord at h
  cases hfound : Token.keywords.lookup word with
  | none =>
      rw [hfound] at h
      exact absurd h.symm hkind
  | some found =>
      rw [hfound] at h
      obtain rfl : found = kind := h
      obtain ⟨before, after, hsplit, -⟩ := List.lookup_eq_some_iff.mp hfound
      rw [hsplit]
      exact List.mem_append_right before List.mem_cons_self

/-- A piece that is a word has the kind of that word. -/
def Piece.Genuine : Piece → Prop
  | .token kind lexeme => kind = .name ∨ kind = .kwThis ∨ kind = .kwSuper →
      kind = Token.Kind.ofWord (String.ofList lexeme)
  | _ => True

theorem Piece.genuine_first (c : Char) (cs : List Char) : (Piece.first c cs).1.Genuine := by
  unfold Piece.first
  split
  · trivial
  split
  · unfold Piece.string
    split
    · trivial
    · exact fun h => by simp at h
  split
  · exact fun h => by simp at h
  split
  · exact fun _ => rfl
  split
  · unfold Piece.slash
    split
    · trivial
    · exact fun h => by simp at h
  unfold Piece.symbol
  split
  · next hkind =>
      revert hkind
      unfold Piece.single?
      split <;> rintro ⟨⟩ <;> exact fun h => by simp at h
  · next hkind =>
      revert hkind
      unfold Piece.extensible?
      split <;> rintro ⟨⟩ <;> exact fun h => by simp at h
  · next hkind _ =>
      revert hkind
      unfold Piece.extensible?
      split <;> rintro ⟨⟩ <;> exact fun h => by simp at h
  · trivial

theorem Piece.genuine_of_mem {n : Nat} {cs : List Char} {piece : Piece}
    (h : piece ∈ Piece.takePieces n cs) : piece.Genuine := by
  induction n generalizing cs with
  | zero => cases h
  | succ n ih =>
      cases cs with
      | nil => cases h
      | cons c cs =>
          rcases List.mem_cons.mp h with rfl | h
          · exact Piece.genuine_first c cs
          · exact ih h

theorem Piece.Genuine.token {kind : Token.Kind} {lexeme : List Char}
    (h : (Piece.token kind lexeme).Genuine) (line : Int) :
    (Scan.token line kind lexeme).Genuine where
  name hkind := by
    have hword := h (.inl hkind)
    obtain rfl : kind = .name := hkind
    refine ⟨fun heq => ?_, fun heq => ?_⟩
    · rw [show String.ofList lexeme = "this" from heq] at hword
      exact absurd hword (by decide)
    · rw [show String.ofList lexeme = "super" from heq] at hword
      exact absurd hword (by decide)
  this hkind := by
    have hword := h (.inr (.inl hkind))
    obtain rfl : kind = .kwThis := hkind
    have hmem := Token.Kind.mem_keywords hword.symm (by decide)
    simpa [Token.keywords, Scan.token] using hmem
  super hkind := by
    have hword := h (.inr (.inr hkind))
    obtain rfl : kind = .kwSuper := hkind
    have hmem := Token.Kind.mem_keywords hword.symm (by decide)
    simpa [Token.keywords, Scan.token] using hmem

theorem Scan.genuine_ofPieces {line : Int} {pieces : List Piece}
    (h : ∀ piece ∈ pieces, piece.Genuine) : AllGenuine (Scan.ofPieces line pieces).tokens := by
  induction pieces generalizing line with
  | nil => exact nofun
  | cons piece pieces ih =>
      have hlater : ∀ line : Int, AllGenuine (Scan.ofPieces line pieces).tokens :=
        fun line => ih fun p hp => h p (List.mem_cons_of_mem _ hp)
      cases piece with
      | token kind lexeme =>
          intro t ht
          rcases List.mem_cons.mp ht with rfl | ht
          · exact (h _ List.mem_cons_self).token line
          · exact hlater _ t ht
      | _ => exact hlater _

/-- A source that is given by its characters is scanned without taking it apart. -/
theorem Scan.ofSource_ofList (cs : List Char) :
    ofSource (String.ofList cs) = ofPieces 1 (Piece.split cs) := by
  rw [ofSource, String.toList_ofList]

theorem Scan.genuine_ofSource (source : String) : AllGenuine (Scan.ofSource source).tokens :=
  Scan.genuine_ofPieces fun _ => Piece.genuine_of_mem

theorem Scan.ending_ofSource (source : String) :
    (Scan.ofSource source).ending.kind = .ending := by
  obtain ⟨last, hlast⟩ := Scan.ending_ofPieces 1 (Piece.split source.toList)
  exact congrArg Token.kind hlast

theorem Scan.genuine_cursor (source : String) (i : NodeId) :
    ((Scan.ofSource source).cursor i).Genuine := by
  have hending := Scan.ending_ofSource source
  refine ⟨⟨fun hname => ?_, fun hthis => ?_, fun hsuper => ?_⟩, Scan.genuine_ofSource source⟩
  · cases hending.symm.trans hname
  · cases hending.symm.trans hthis
  · cases hending.symm.trans hsuper

theorem formed_readProgram (source : String) (i : NodeId) :
    bodyFormed ((Scan.ofSource source).readProgram i).tree := by
  unfold Scan.readProgram
  rcases hstep : Parse.program (Scan.ofSource source).tokens.length
    ((Scan.ofSource source).cursor i) with ⟨_ | statements, c⟩
  · trivial
  · exact (Parse.forms_program _).forms (Scan.genuine_cursor source i) hstep

theorem formed_readExpression {source : String} {i : NodeId} {e : Expr}
    (h : ((Scan.ofSource source).readExpression i).tree = some e) : e.Formed := by
  unfold Scan.readExpression at h
  rcases hstep : Parse.wholeExpression (Scan.ofSource source).tokens.length
    ((Scan.ofSource source).cursor i) with ⟨_ | e', c⟩
  · rw [hstep] at h
    cases h
  · rw [hstep] at h
    cases h
    exact (Parse.forms_wholeExpression _).forms (Scan.genuine_cursor source i) hstep

/-! ## Accepted programs -/

/-- A program or expression that compilation accepted. -/
inductive Part.Accepted : Part → Prop where
  | program : (compile source i).problems = [] →
      Part.Accepted (.body (compile source i).statements)
  | expression : (compileExpression source i).tree = .ok e → Part.Accepted (.expr e)

variable {source : String} {i : NodeId}

theorem checked_of_accepted (part : Part) (hproblems : (part.resolve {} []).problems = [])
    (hdistinct : part.ids.Nodup) (hformed : part.Formed) :
    Checked (hopsOf (part.resolve {} []).references) {} [] part where
  sound := ⟨hproblems, hdistinct, fun _ _ => rfl⟩
  formed := hformed
  placed := by
    cases part with
    | expr _ | exprs _ => exact ⟨.globals, nofun⟩
    | stmt _ | body _ => exact ⟨.globals, nofun⟩
    | function _ | methods _ => exact ⟨.globals, nofun⟩

theorem compile_of_program {phrases : List Phrase} {j : Ledger}
    (hscan : (Scan.ofSource source).problems = [])
    (h : Grammar.Program (.start i) (Scan.ofSource source).tokens phrases j) :
    compile source i =
      ⟨Scan.ofSource source, desugarAll phrases, (resolveProgram (desugarAll phrases)).references,
        (resolveProgram (desugarAll phrases)).problems, true, j.nextId⟩ := by
  simp only [compile, hscan, Grammar.readProgram_eq_of_reads (h.reads (Scan.ending_ofSource source)),
    List.append_nil, List.isEmpty_nil, if_true, Reading.nextId]

theorem program_of_compile (h : (compile source i).problems = []) :
    (Scan.ofSource source).problems = [] ∧ ∃ phrases j,
      Grammar.Program (.start i) (Scan.ofSource source).tokens phrases j ∧
        (resolveProgram (desugarAll phrases)).problems = [] := by
  have hearly : (Scan.ofSource source).problems ++
      ((Scan.ofSource source).readProgram i).problems = [] := by
    by_cases hnone : (Scan.ofSource source).problems ++
        ((Scan.ofSource source).readProgram i).problems = []
    · exact hnone
    · simp only [compile, List.isEmpty_iff, if_neg hnone] at h
      exact h
  rw [List.append_eq_nil_iff] at hearly
  obtain ⟨phrases, j, hphrases⟩ :=
    (Grammar.readProgram_problems_eq_nil_iff (Scan.ending_ofSource source)).mp hearly.2
  rw [compile_of_program hearly.1 hphrases] at h
  exact ⟨hearly.1, phrases, j, hphrases, h⟩

theorem statements_compile (source : String) (i : NodeId) :
    (compile source i).statements = ((Scan.ofSource source).readProgram i).tree := by
  unfold compile
  dsimp only
  split <;> rfl

theorem nextId_compile (source : String) (i : NodeId) :
    (compile source i).nextId = ((Scan.ofSource source).readProgram i).nextId := by
  unfold compile
  dsimp only
  split <;> rfl

theorem compile_checked (h : (compile source i).problems = []) :
    Checked (hopsOf (compile source i).references) {} [] (.body (compile source i).statements) ∧
      Numbered i (bodyIds (compile source i).statements) (compile source i).nextId := by
  obtain ⟨hscan, phrases, j, hphrases, hproblems⟩ := program_of_compile h
  have hnumbered := numbered_compile source i
  have hformed := formed_readProgram source i
  rw [← statements_compile] at hformed
  rw [compile_of_program hscan hphrases] at hnumbered hformed ⊢
  exact ⟨checked_of_accepted (.body (desugarAll phrases)) hproblems hnumbered.distinct
    hformed, hnumbered⟩

theorem le_nextId_compile (source : String) (i : NodeId) : i ≤ (compile source i).nextId :=
  (numbered_compile source i).le

/-! ## Accepted expressions -/

mutual

theorem Expr.references_globals (c : Context) : ∀ {e : Expr}, (e.resolve c []).references = []
  | .literal _ _ => rfl
  | .grouping _ inner => by
      simp only [Expr.resolve, inner.references_globals c]
  | .unary _ _ right => by
      simp only [Expr.resolve, right.references_globals c]
  | .binary _ left _ right => by
      simp only [Expr.resolve, Findings.references_append, left.references_globals c,
        right.references_globals c, List.append_nil]
  | .logical _ left _ right => by
      simp only [Expr.resolve, Findings.references_append, left.references_globals c,
        right.references_globals c, List.append_nil]
  | .read _ _ => rfl
  | .assign _ _ value => by
      simp only [Expr.resolve, Findings.references_append, value.references_globals c]
      rfl
  | .call _ callee _ arguments => by
      simp only [Expr.resolve, Findings.references_append, callee.references_globals c,
        references_globals_arguments c arguments, List.append_nil]
  | .get _ object _ => by
      simp only [Expr.resolve, object.references_globals c]
  | .set _ object _ value => by
      simp only [Expr.resolve, Findings.references_append, object.references_globals c,
        value.references_globals c, List.append_nil]
  | .self _ _ => by
      simp only [Expr.resolve]
      split <;> rfl
  | .super _ _ _ => rfl
  | .missing => rfl
  | .misplaced _ => rfl

theorem references_globals_arguments (c : Context) :
    ∀ es : List Expr, (resolveArguments c [] es).references = []
  | [] => rfl
  | e :: es => by
      simp only [resolveArguments, Findings.references_append, e.references_globals c,
        references_globals_arguments c es, List.append_nil]

end

theorem nextId_compileExpression (source : String) (i : NodeId) :
    (compileExpression source i).nextId = ((Scan.ofSource source).readExpression i).nextId := by
  unfold compileExpression
  dsimp only
  split <;> rfl

theorem le_nextId_compileExpression (source : String) (i : NodeId) :
    i ≤ (compileExpression source i).nextId := by
  rw [nextId_compileExpression]
  exact (numbered_readExpression source i).le

theorem read_of_compileExpression {e : Expr} (h : (compileExpression source i).tree = .ok e) :
    ((Scan.ofSource source).readExpression i).tree = some e ∧
      (e.resolve {} []).problems = [] := by
  unfold compileExpression at h
  dsimp only at h
  cases hread : ((Scan.ofSource source).readExpression i).tree with
  | none =>
      rw [hread] at h
      cases h
  | some found =>
      simp only [hread, List.isEmpty_iff] at h
      by_cases hnone : (Scan.ofSource source).problems ++
          ((Scan.ofSource source).readExpression i).problems = []
      · rw [if_pos hnone] at h
        split at h
        · next hproblems =>
            obtain rfl : found = e := Except.ok.inj h
            exact ⟨rfl, hproblems⟩
        · cases h
      · rw [if_neg hnone, if_neg hnone] at h
        cases h

theorem compileExpression_checked {e : Expr} (h : (compileExpression source i).tree = .ok e) :
    Checked (fun _ => none) {} [] (.expr e) ∧
      Numbered i e.ids (compileExpression source i).nextId := by
  obtain ⟨htree, hresolve⟩ := read_of_compileExpression h
  have hnumbered := numbered_readExpression source i
  rw [htree] at hnumbered
  rw [nextId_compileExpression]
  have hchecked := checked_of_accepted (.expr e) hresolve hnumbered.distinct
    (formed_readExpression htree)
  rw [show (Part.expr e).resolve {} [] = e.resolve {} [] from rfl,
    e.references_globals {}] at hchecked
  exact ⟨hchecked, hnumbered⟩

end Lox
