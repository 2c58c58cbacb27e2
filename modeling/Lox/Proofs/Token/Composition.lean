import Lox.Proofs.Token.Front

/-!
# Sources put together

No piece but an open string reaches past the end of its line, and no token reaches past a space behind
it.  So sources below each other have the tokens that they have each for itself, and the tokens of any
source can be written down again with spaces between them.
-/

namespace Lox

/-! ## One source below another -/

namespace Scan

theorem all_down (k : Int) (s : Scan) : (s.down k).all = s.all.map (Token.down k) := by
  simp [down, all]

/--
The tokens and problems of a source on a new line are its own, moved down by the lines above it, if
the source above leaves no string open.
-/
theorem ofSource_below {before : String}
    (h : ∀ p ∈ (ofSource before).problems, p.message ≠ "Unterminated string.") (after : String) :
    (ofSource (before ++ "\n" ++ after)).all =
        (ofSource before).tokens ++
          (ofSource after).all.map (Token.down (1 + lineBreaks before.toList)) ∧
      (ofSource (before ++ "\n" ++ after)).problems =
        (ofSource before).problems ++
          (ofSource after).problems.map (Diagnostic.down (1 + lineBreaks before.toList)) := by
  have hclosed : ∀ piece ∈ Piece.split before.toList, piece.isUnclosed = false := by
    refine closed_of_problems 1 fun p hp hopen => h p hp ?_
    rw [Diagnostic.message, hopen]
    rfl
  have hlines : (linesOf before : Int) = 1 + lineBreaks before.toList := by
    rw [linesOf, Int.natCast_add, Int.add_comm]
    rfl
  have hjoined := ofSource_joined_of_closed hclosed after
  unfold joined at hjoined
  rw [hjoined, ← hlines, ← all_down]
  constructor
  · simp only [all, List.append_assoc]
  · rfl

/-- Neither the sign nor the comment at the ends of the first lines goes on in the next one. -/
theorem ofSource_below_comment :
    (∀ p ∈ (ofSource "@ !\n1 // \"").problems, p.message ≠ "Unterminated string.") ∧
      (ofSource ("@ !\n1 // \"" ++ "\n" ++ "= .5 \"open")).all =
        (ofSource "@ !\n1 // \"").tokens ++
          (ofSource "= .5 \"open").all.map (Token.down (1 + lineBreaks "@ !\n1 // \"".toList)) ∧
      (ofSource ("@ !\n1 // \"" ++ "\n" ++ "= .5 \"open")).problems =
        (ofSource "@ !\n1 // \"").problems ++ (ofSource "= .5 \"open").problems.map
          (Diagnostic.down (1 + lineBreaks "@ !\n1 // \"".toList)) := by
  have hclosed : ∀ p ∈ (ofSource "@ !\n1 // \"").problems, p.message ≠ "Unterminated string." := by
    decide
  exact ⟨hclosed, ofSource_below hclosed "= .5 \"open"⟩

end Scan

/-! ## Tokens with spaces between them -/

/-- A token without its line. -/
def Token.content (t : Token) : Token.Kind × String × Literal :=
  (t.kind, t.lexeme, t.literal)

/-- The tokens of a source, written with a space between each two. -/
def respelled (source : String) : String :=
  " ".intercalate ((Scan.ofSource source).tokens.map Token.lexeme)

namespace Piece

variable {kind : Token.Kind} {lexeme : List Char} {pieces : List Piece} {source : List Char}

def tokens (pieces : List Piece) : List (Token.Kind × List Char) :=
  pieces.filterMap fun
    | .token kind lexeme => some (kind, lexeme)
    | _ => none

/-- The text of a token, on its own, is that token. -/
def StandsAlone (entry : Token.Kind × List Char) : Prop :=
  split entry.2 = [.token entry.1 entry.2]

theorem standsAlone_of_split {before after : List Piece}
    (h : split source = before ++ .token kind lexeme :: after) : StandsAlone (kind, lexeme) := by
  have hend : split (textOf (.token kind lexeme :: after)) = [.token kind lexeme] ++ after :=
    (split_parts h).1
  have hclosed : ∀ piece ∈ [Piece.token kind lexeme], piece.isUnclosed = false := by
    simp [isUnclosed]
  have hown := (split_parts hend).2 hclosed
  rwa [textOf, List.flatMap_singleton] at hown

theorem standsAlone_of_mem {entry : Token.Kind × List Char} (h : entry ∈ tokens (split source)) :
    StandsAlone entry := by
  obtain ⟨piece, hpiece, hentry⟩ := List.mem_filterMap.mp h
  obtain ⟨before, after, hsplit⟩ := List.append_of_mem hpiece
  cases piece with
  | token kind lexeme =>
      cases hentry
      exact standsAlone_of_split hsplit
  | _ => cases hentry

theorem split_eq_nil (h : split source = []) : source = [] := by
  rw [← textOf_split source, h]
  rfl

theorem split_token (h : StandsAlone (kind, lexeme)) (rest : List Char) :
    split (lexeme ++ ' ' :: rest) = .token kind lexeme :: .blank ' ' :: split rest := by
  unfold StandsAlone at h
  cases lexeme with
  | nil => cases h
  | cons c cs =>
      rw [split_cons] at h
      obtain ⟨hpiece, hrest⟩ := List.cons.inj h
      have hends : (first c cs).1.EndsBefore ' ' := by
        rw [hpiece]
        trivial
      rw [List.cons_append, split_cons, first_before rfl hends, hpiece, split_eq_nil hrest,
        List.nil_append, split_cons]
      rfl

theorem split_spaced {entries : List (Token.Kind × List Char)}
    (h : ∀ entry ∈ entries, StandsAlone entry) :
    tokens (split ([' '].intercalate (entries.map Prod.snd))) = entries ∧
      ∀ line, (Scan.ofPieces line
        (split ([' '].intercalate (entries.map Prod.snd)))).problems = [] := by
  induction entries with
  | nil => exact ⟨rfl, fun _ => rfl⟩
  | cons entry entries ih =>
      have hentry : split entry.2 = [.token entry.1 entry.2] := h entry List.mem_cons_self
      obtain ⟨htokens, hproblems⟩ := ih fun other hother => h other (List.mem_cons_of_mem _ hother)
      cases entries with
      | nil =>
          rw [List.map_cons, List.map_nil, List.intercalate_singleton, hentry]
          exact ⟨rfl, fun _ => rfl⟩
      | cons second entries =>
          rw [List.map_cons, List.map_cons, List.intercalate_cons_cons, ← List.map_cons,
            List.append_assoc, List.singleton_append, split_token hentry]
          exact ⟨congrArg (entry :: ·) htokens, fun line => hproblems _⟩

end Piece

namespace Scan

theorem content_ofPieces (line : Int) (pieces : List Piece) :
    (ofPieces line pieces).tokens.map Token.content =
      (Piece.tokens pieces).map fun entry =>
        (entry.1, String.ofList entry.2, literal entry.1 entry.2) := by
  induction pieces generalizing line with
  | nil => rfl
  | cons piece pieces ih =>
      cases piece with
      | token kind lexeme => exact congrArg _ (ih _)
      | _ => exact ih _

theorem content_all {s s' : Scan} {line line' : Int} (hending : s.ending = .atEnd line)
    (hending' : s'.ending = .atEnd line')
    (h : s.tokens.map Token.content = s'.tokens.map Token.content) :
    s.all.map Token.content = s'.all.map Token.content := by
  rw [all, all, List.map_append, List.map_append, h, hending, hending']
  rfl

theorem lexemes_eq (source : String) :
    (ofSource source).tokens.map (fun t => t.lexeme.toList) =
      (Piece.tokens (Piece.split source.toList)).map Prod.snd := by
  have hcontent := congrArg (List.map fun entry => entry.2.1.toList)
    (content_ofPieces 1 (Piece.split source.toList))
  simp only [List.map_map, Function.comp_def, Token.content, String.toList_ofList] at hcontent
  exact hcontent

theorem toList_respelled (source : String) :
    (respelled source).toList =
      [' '].intercalate ((Piece.tokens (Piece.split source.toList)).map Prod.snd) := by
  rw [respelled, String.toList_intercalate, List.map_map, ← lexemes_eq]
  rfl

/--
Tokens written down with spaces between them are read as the same tokens, on whatever lines, and
without a problem.  So the text that they are written down as does not change any more.
-/
theorem ofSource_respelled (source : String) :
    (ofSource (respelled source)).problems = [] ∧
      (ofSource (respelled source)).all.map Token.content =
        (ofSource source).all.map Token.content ∧
      respelled (respelled source) = respelled source := by
  have halone : ∀ entry ∈ Piece.tokens (Piece.split source.toList), Piece.StandsAlone entry :=
    fun _ hentry => Piece.standsAlone_of_mem hentry
  obtain ⟨htokens, hproblems⟩ := Piece.split_spaced halone
  rw [← toList_respelled] at htokens hproblems
  have hcontent : (ofSource (respelled source)).tokens.map Token.content =
      (ofSource source).tokens.map Token.content := by
    unfold ofSource
    rw [content_ofPieces, content_ofPieces, htokens]
  obtain ⟨line, hending⟩ := ending_ofPieces 1 (Piece.split (respelled source).toList)
  obtain ⟨line', hending'⟩ := ending_ofPieces 1 (Piece.split source.toList)
  refine ⟨hproblems 1, content_all hending hending' hcontent, ?_⟩
  apply String.toList_inj.mp
  rw [toList_respelled (respelled source), htokens, ← toList_respelled]

/-- A slash before a slash, a point before a digit and a sign before a sign stay what they are. -/
example : respelled "/ / 1. .5 ! =\"//\" @ == =" = "/ / 1 . . 5 ! = \"//\" == =" := by decide

end Scan

end Lox
