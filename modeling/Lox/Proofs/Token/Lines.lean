import Lox.Proofs.Token.Front

/-!
# Lines are exact

The line of a token or of a problem is the line that it starts on.  Where that is, is said by what
stands before it and after it: either part is divided into just the tokens and problems that come
before or after in the listing.
-/

namespace Lox

/-- The token `t` of a source has `before` in front of it and `after` behind it. -/
structure TokenBetween (source : List Char) (earlier later : List Token) (problems : List Diagnostic)
    (t : Token) (before after : List Char) : Prop where
  text : source = before ++ t.lexeme.toList ++ after
  divides : ∃ noted more, problems = noted ++ more ∧ Divides before earlier noted ∧
    Divides after later more

/-- What a problem is about: a single character, or all that follows a quote at which a string opens. -/
inductive Culprit (p : Diagnostic) (after : List Char) : List Char → Prop where
  | stray : p.message = "Unexpected character." → Culprit p after [c]
  | unclosed : p.message = "Unterminated string." → '"' ∉ body → after = [] →
      Culprit p after ('"' :: body)

/-- The problem `p` of a source has `before` in front of what it is about and `after` behind it. -/
structure ProblemBetween (source : List Char) (tokens : List Token) (earlier later : List Diagnostic)
    (p : Diagnostic) (before after : List Char) : Prop where
  text : ∃ culprit, Culprit p after culprit ∧ source = before ++ culprit ++ after
  divides : ∃ found more, tokens = found ++ more ∧ Divides before found earlier ∧
    Divides after more later

namespace Scan

variable {line : Int} {pieces : List Piece}

/-! ## Pieces and their lines -/

theorem lineBreaks_textOf (pieces : List Piece) :
    lineBreaks (Piece.textOf pieces) = lineBreaksOf pieces := by
  unfold lineBreaks lineBreaksOf Piece.textOf
  rw [List.count_flatMap]
  rfl

theorem ending_line (line : Int) (pieces : List Piece) :
    (ofPieces line pieces).ending = .atEnd (line + lineBreaksOf pieces) := by
  have happend := ofPieces_append line pieces []
  rw [List.append_nil] at happend
  rw [happend]
  rfl

theorem token_piece {earlier later : List Token} {t : Token}
    (h : (ofPieces line pieces).tokens = earlier ++ t :: later) :
    ∃ before kind lexeme after, pieces = before ++ .token kind lexeme :: after ∧
      (ofPieces line before).tokens = earlier ∧ t = token (line + lineBreaksOf before) kind lexeme := by
  induction pieces generalizing line earlier with
  | nil => cases earlier <;> cases h
  | cons piece pieces ih =>
      have later_piece : ∀ {others}, (ofPieces (line + lineBreaks piece.text) pieces).tokens =
          others ++ t :: later → ∃ before kind lexeme after,
            piece :: pieces = piece :: before ++ .token kind lexeme :: after ∧
            (ofPieces (line + lineBreaks piece.text) before).tokens = others ∧
            t = token (line + lineBreaksOf (piece :: before)) kind lexeme := by
        intro others hothers
        obtain ⟨before, kind, lexeme, after, rfl, htokens, ht⟩ := ih hothers
        refine ⟨before, kind, lexeme, after, rfl, htokens, ?_⟩
        rw [ht, lineBreaksOf, lineBreaksOf, List.map_cons, List.sum_cons, Int.natCast_add,
          Int.add_assoc]
      cases piece with
      | token kind lexeme =>
          cases earlier with
          | nil =>
              obtain ⟨ht, -⟩ := List.cons.inj h
              exact ⟨[], kind, lexeme, pieces, rfl, rfl, ht ▸ by simp [lineBreaksOf]⟩
          | cons first earlier =>
              obtain ⟨hfirst, hrest⟩ := List.cons.inj h
              obtain ⟨before, kind', lexeme', after, hpieces, htokens, ht⟩ := later_piece hrest
              refine ⟨_, kind', lexeme', after, hpieces, ?_, ht⟩
              rw [← hfirst, ← htokens]
              rfl
      | blank _ | comment _ | stray _ | unclosed _ =>
          obtain ⟨before, kind', lexeme', after, hpieces, htokens, ht⟩ := later_piece h
          exact ⟨_, kind', lexeme', after, hpieces, htokens, ht⟩

/-- A piece that is reported, with the cause of the report. -/
inductive Reported : Piece → Problem → Prop where
  | stray : Reported (.stray c) .strayCharacter
  | unclosed : Reported (.unclosed text) .unclosedString

theorem problem_piece {earlier later : List Diagnostic} {p : Diagnostic}
    (h : (ofPieces line pieces).problems = earlier ++ p :: later) :
    ∃ before piece problem after, pieces = before ++ piece :: after ∧ Reported piece problem ∧
      (ofPieces line before).problems = earlier ∧ p = ⟨line + lineBreaksOf before, "", problem⟩ := by
  induction pieces generalizing line earlier with
  | nil => cases earlier <;> cases h
  | cons piece pieces ih =>
      have later_piece : ∀ {others}, (ofPieces (line + lineBreaks piece.text) pieces).problems =
          others ++ p :: later → ∃ before piece' problem after,
            piece :: pieces = piece :: before ++ piece' :: after ∧ Reported piece' problem ∧
            (ofPieces (line + lineBreaks piece.text) before).problems = others ∧
            p = ⟨line + lineBreaksOf (piece :: before), "", problem⟩ := by
        intro others hothers
        obtain ⟨before, piece', problem, after, rfl, hreported, hproblems, hp⟩ := ih hothers
        refine ⟨before, piece', problem, after, rfl, hreported, hproblems, ?_⟩
        rw [hp, lineBreaksOf, lineBreaksOf, List.map_cons, List.sum_cons, Int.natCast_add,
          Int.add_assoc]
      have here : ∀ {problem}, Reported piece problem →
          (ofPieces line (piece :: pieces)).problems =
            ⟨line, "", problem⟩ :: (ofPieces (line + lineBreaks piece.text) pieces).problems →
          ∃ before piece' problem after, piece :: pieces = before ++ piece' :: after ∧
            Reported piece' problem ∧ (ofPieces line before).problems = earlier ∧
            p = ⟨line + lineBreaksOf before, "", problem⟩ := by
        intro problem hreported hcons
        rw [hcons] at h
        cases earlier with
        | nil =>
            obtain ⟨hp, -⟩ := List.cons.inj h
            exact ⟨[], piece, problem, pieces, rfl, hreported, rfl, hp ▸ by simp [lineBreaksOf]⟩
        | cons first earlier =>
            obtain ⟨hfirst, hrest⟩ := List.cons.inj h
            obtain ⟨before, piece', problem', after, hpieces, hreported', hproblems, hp⟩ :=
              later_piece hrest
            refine ⟨_, piece', problem', after, hpieces, hreported', ?_, hp⟩
            rw [← hfirst, ← hproblems]
            cases hreported <;> rfl
      cases piece with
      | stray _ => exact here .stray rfl
      | unclosed _ => exact here .unclosed rfl
      | blank _ | comment _ | token _ _ =>
          obtain ⟨before, piece', problem, after, hpieces, hreported, hproblems, hp⟩ := later_piece h
          exact ⟨_, piece', problem, after, hpieces, hreported, hproblems, hp⟩

/-! ## The order of lines -/

/-- No token stands on an earlier line than the piece that the pieces start with, or than a token
before it. -/
theorem lines_all (line : Int) (pieces : List Piece) :
    (∀ t ∈ (ofPieces line pieces).all, line ≤ t.line) ∧
      (ofPieces line pieces).all.Pairwise fun t u => t.line ≤ u.line := by
  induction pieces generalizing line with
  | nil =>
      refine ⟨fun t ht => ?_, List.pairwise_singleton _ _⟩
      rw [List.mem_singleton.mp ht]
      exact Int.le_refl line
  | cons piece pieces ih =>
      have hdown : line ≤ line + lineBreaks piece.text :=
        Int.le_add_of_nonneg_right (Int.natCast_nonneg _)
      obtain ⟨hfrom, hsorted⟩ := ih (line + lineBreaks piece.text)
      have hlater := fun t ht => Int.le_trans hdown (hfrom t ht)
      cases piece with
      | token kind lexeme =>
          refine ⟨fun t ht => ?_, List.pairwise_cons.mpr ⟨hlater, hsorted⟩⟩
          rcases List.mem_cons.mp ht with rfl | ht
          · exact Int.le_refl line
          · exact hlater t ht
      | blank _ | comment _ | stray _ | unclosed _ => exact ⟨hlater, hsorted⟩

theorem lines_problems (line : Int) (pieces : List Piece) :
    (∀ p ∈ (ofPieces line pieces).problems, line ≤ p.line) ∧
      (ofPieces line pieces).problems.Pairwise fun p q => p.line ≤ q.line := by
  induction pieces generalizing line with
  | nil => exact ⟨nofun, List.Pairwise.nil⟩
  | cons piece pieces ih =>
      have hdown : line ≤ line + lineBreaks piece.text :=
        Int.le_add_of_nonneg_right (Int.natCast_nonneg _)
      obtain ⟨hfrom, hsorted⟩ := ih (line + lineBreaks piece.text)
      have hlater := fun p hp => Int.le_trans hdown (hfrom p hp)
      cases piece with
      | stray _ | unclosed _ =>
          refine ⟨fun p hp => ?_, List.pairwise_cons.mpr ⟨hlater, hsorted⟩⟩
          rcases List.mem_cons.mp hp with rfl | hp
          · exact Int.le_refl line
          · exact hlater p hp
      | blank _ | comment _ | token _ _ => exact ⟨hlater, hsorted⟩

/-! ## Lines of a source -/

theorem divides_around {source : List Char} {before after : List Piece} {piece : Piece}
    (h : Piece.split source = before ++ piece :: after) (line line' : Int) :
    Divides (Piece.textOf before) (ofPieces line before).tokens (ofPieces line before).problems ∧
      Divides (Piece.textOf after) (ofPieces line' after).tokens (ofPieces line' after).problems := by
  have hbefore := (Piece.split_parts h).2 (Piece.closed_of_split h)
  have hafter : Piece.split (Piece.textOf after) = after := by
    rw [← List.singleton_append, ← List.append_assoc] at h
    exact (Piece.split_parts h).1
  have hdivide : ∀ text, Piece.Divide text (Piece.split text) :=
    fun text => Piece.divide_takePieces (Nat.le_refl _)
  constructor
  · have := hdivide (Piece.textOf before) line
    rwa [hbefore] at this
  · have := hdivide (Piece.textOf after) line'
    rwa [hafter] at this

theorem text_around {source : List Char} {before after : List Piece} {piece : Piece}
    (h : Piece.split source = before ++ piece :: after) :
    source = Piece.textOf before ++ piece.text ++ Piece.textOf after := by
  rw [← Piece.textOf_split source, h, Piece.textOf_append, List.append_assoc]
  rfl

theorem culprit_of_reported {source : List Char} {before after : List Piece} {piece : Piece}
    {problem : Problem} (h : Piece.split source = before ++ piece :: after)
    (hreported : Reported piece problem) (line : Int) :
    Culprit ⟨line, "", problem⟩ (Piece.textOf after) piece.text := by
  cases hreported with
  | stray => exact .stray rfl
  | unclosed =>
      obtain ⟨⟨body, hbody, rfl⟩, rfl⟩ := Piece.unclosed_of_split h
      exact .unclosed rfl hbody rfl

end Scan

/--
Every token and every problem stands on the line on which it starts: one more than the line breaks in
the text before it.  The closing token stands on the last line.  No line is smaller than an earlier
one.
-/
theorem Scan.lines_exact (source : String) :
    (∀ earlier t later, (ofSource source).tokens = earlier ++ t :: later →
      ∃ before after, TokenBetween source.toList earlier later (ofSource source).problems t before
        after ∧ t.line = 1 + lineBreaks before) ∧
    (∀ earlier p later, (ofSource source).problems = earlier ++ p :: later →
      ∃ before after, ProblemBetween source.toList (ofSource source).tokens earlier later p before
        after ∧ p.line = 1 + lineBreaks before) ∧
    (ofSource source).ending.line = 1 + lineBreaks source.toList ∧
    (ofSource source).all.Pairwise (fun t u => t.line ≤ u.line) ∧
    (ofSource source).problems.Pairwise fun p q => p.line ≤ q.line := by
  refine ⟨fun earlier t later h => ?_, fun earlier p later h => ?_, ?_, (lines_all _ _).2,
    (lines_problems _ _).2⟩
  · obtain ⟨before, kind, lexeme, after, hsplit, rfl, rfl⟩ := token_piece h
    unfold ofSource at h ⊢
    rw [hsplit, ofPieces_append] at h ⊢
    obtain ⟨-, hlater⟩ := List.cons.inj (List.append_cancel_left h)
    obtain ⟨hbefore, hafter⟩ := divides_around hsplit 1
      (1 + lineBreaksOf before + lineBreaks lexeme)
    refine ⟨Piece.textOf before, Piece.textOf after, ⟨?_, _, _, rfl, hbefore, ?_⟩, ?_⟩
    · rw [token, String.toList_ofList]
      exact text_around hsplit
    · rw [← hlater]
      exact hafter
    · rw [lineBreaks_textOf]
      rfl
  · obtain ⟨before, piece, problem, after, hsplit, hreported, rfl, rfl⟩ := problem_piece h
    have hculprit := culprit_of_reported hsplit hreported (1 + lineBreaksOf before)
    unfold ofSource at h ⊢
    rw [hsplit, ofPieces_append] at h ⊢
    obtain ⟨hbefore, hafter⟩ := divides_around hsplit 1
      (1 + lineBreaksOf before + lineBreaks piece.text)
    refine ⟨Piece.textOf before, Piece.textOf after,
      ⟨⟨piece.text, hculprit, text_around hsplit⟩, (ofPieces 1 before).tokens,
        (ofPieces (1 + lineBreaksOf before + lineBreaks piece.text) after).tokens, ?_, hbefore, ?_⟩,
      ?_⟩
    · cases hreported <;> rfl
    · have hlater : (ofPieces (1 + lineBreaksOf before + lineBreaks piece.text) after).problems =
          later := by
        cases hreported <;> exact (List.cons.inj (List.append_cancel_left h)).2
      rw [← hlater]
      exact hafter
    · rw [lineBreaks_textOf]
  · unfold ofSource
    rw [ending_line, lineBreaksOf_split]
    rfl

end Lox
