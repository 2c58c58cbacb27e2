import Lox.Proofs.Moving.Tree
import Lox.Proofs.Token.Division
import Mathlib.Algebra.GroupWithZero.Nat

/-!
# Sources one after the other

A line break ends every piece of a source but a string.  So a source with no string left open and
another one behind it, on a new line, have the tokens that they have each for itself.  Those of the
second one are further down, by the line breaks before it.
-/

namespace Lox

namespace Piece

variable {c : Char} {cs : List Char}

/-- A string that is never closed. -/
def isUnclosed : Piece → Bool
  | .unclosed _ => true
  | _ => false

/-! ## Pieces in front of a blank -/

section

variable {p : Char → Bool} {stop : Char}

theorem takeWhile_before (hstop : p stop = false) (text more : List Char) :
    (text ++ stop :: more).takeWhile p = text.takeWhile p := by
  induction text with
  | nil => simp [hstop]
  | cons c text ih => simp only [List.cons_append, List.takeWhile_cons, ih]

theorem dropWhile_before (hstop : p stop = false) (text more : List Char) :
    (text ++ stop :: more).dropWhile p = text.dropWhile p ++ stop :: more := by
  induction text with
  | nil => simp [hstop]
  | cons c text ih =>
      simp only [List.cons_append, List.dropWhile_cons, ih]
      split <;> rfl

end

theorem string_before (h : (string cs).1.isUnclosed = false) (more : List Char) :
    string (cs ++ more) = ((string cs).1, (string cs).2 ++ more) := by
  have hsplit := List.takeWhile_append_dropWhile (p := (· != '"')) (l := cs)
  generalize hinner : cs.takeWhile (· != '"') = inner at hsplit
  have hall : ∀ d ∈ inner, (d != '"') = true := by
    intro d hd
    rw [← hinner] at hd
    exact List.mem_takeWhile_imp (p := (· != '"')) hd
  unfold string at h ⊢
  cases hstop : cs.dropWhile (· != '"') with
  | nil =>
      rw [hstop] at h
      cases h
  | cons quote rest =>
      have hquote : (quote != '"') = false := by
        have hhead := List.head?_dropWhile_not (· != '"') cs
        rw [hstop] at hhead
        simpa using hhead
      have hdrop : (cs ++ more).dropWhile (· != '"') = quote :: (rest ++ more) := by
        rw [← hsplit, hstop, List.append_assoc, List.dropWhile_append_of_pos hall]
        simp [hquote]
      have htake : (cs ++ more).takeWhile (· != '"') = inner := by
        rw [← hsplit, hstop, List.append_assoc, List.takeWhile_append_of_pos hall]
        simp [hquote]
      rw [hdrop, htake, hinner]

section

variable {stop : Char}

theorem not_extending_of_isBlank (h : isBlank stop = true) :
    Decimal.isDigit stop = false ∧ isWordChar stop = false ∧ stop ≠ '.' ∧ stop ≠ '=' ∧ stop ≠ '/' := by
  have hmem := isBlank_iff.mp h
  simp only [List.mem_cons, List.not_mem_nil, or_false] at hmem
  rcases hmem with rfl | rfl | rfl | rfl <;> decide

theorem fraction_before (hstop : isBlank stop = true) (text more : List Char) :
    fraction (text ++ stop :: more) = ((fraction text).1, (fraction text).2 ++ stop :: more) := by
  obtain ⟨hdigit, -, hpoint, -⟩ := not_extending_of_isBlank hstop
  match text with
  | [] => simp [fraction, hpoint]
  | [c] =>
      by_cases hc : c = '.'
      · subst hc
        simp [fraction, hdigit]
      · simp [fraction, hc]
  | c :: d :: rest =>
      by_cases hc : c = '.'
      · subst hc
        simp only [List.cons_append, fraction, takeWhile_before hdigit, dropWhile_before hdigit]
        split <;> rfl
      · simp [fraction, hc]

theorem number_before (hstop : isBlank stop = true) (cs more : List Char) :
    number (cs ++ stop :: more) = ((number cs).1, (number cs).2 ++ stop :: more) := by
  have hdigit := (not_extending_of_isBlank hstop).1
  simp only [number, takeWhile_before hdigit, dropWhile_before hdigit, fraction_before hstop]

theorem word_before (hstop : isBlank stop = true) (cs more : List Char) :
    word (cs ++ stop :: more) = ((word cs).1, (word cs).2 ++ stop :: more) := by
  have hword := (not_extending_of_isBlank hstop).2.1
  simp only [word, takeWhile_before hword, dropWhile_before hword]

/-- A comment goes on past any blank but a line break. -/
theorem slash_before (hstop : isBlank stop = true) (h : stop = '\n' ∨ ¬ ['/'] <+: cs)
    (more : List Char) :
    slash (cs ++ stop :: more) = ((slash cs).1, (slash cs).2 ++ stop :: more) := by
  match cs with
  | [] => simp [slash, (not_extending_of_isBlank hstop).2.2.2.2]
  | c :: rest =>
      by_cases hopen : c = '/'
      · subst hopen
        obtain rfl : stop = '\n' := h.resolve_right fun hnone => hnone (List.prefix_append ['/'] rest)
        have hbreak : ('\n' != '\n') = false := by decide
        have htake := takeWhile_before (p := (· != '\n')) hbreak ('/' :: rest) more
        have hdrop := dropWhile_before (p := (· != '\n')) hbreak ('/' :: rest) more
        rw [List.cons_append] at htake hdrop
        simp only [List.cons_append, slash, htake, hdrop]
      · simp [slash, hopen]

theorem symbol_before (hstop : isBlank stop = true) (c : Char) (cs more : List Char) :
    symbol c (cs ++ stop :: more) = ((symbol c cs).1, (symbol c cs).2 ++ stop :: more) := by
  unfold symbol
  cases single? c with
  | some kind => rfl
  | none =>
      cases extensible? c with
      | none => rfl
      | some kinds =>
          cases cs with
          | nil => simp [(not_extending_of_isBlank hstop).2.2.2.1]
          | cons d rest =>
              by_cases hequal : d = '='
              · subst hequal
                rfl
              · simp [hequal]

end

/-- Whether a piece ends before a blank. -/
def EndsBefore (stop : Char) : Piece → Prop
  | .unclosed _ => False
  | .comment _ => stop = '\n'
  | _ => True

theorem first_before {stop : Char} (hstop : isBlank stop = true) (h : (first c cs).1.EndsBefore stop)
    (more : List Char) :
    first c (cs ++ stop :: more) = ((first c cs).1, (first c cs).2 ++ stop :: more) := by
  unfold first at h ⊢
  by_cases hblank : isBlank c = true
  · rw [if_pos hblank, if_pos hblank]
  rw [if_neg hblank] at h ⊢
  rw [if_neg hblank]
  by_cases hquote : c = '"'
  · rw [if_pos hquote] at h ⊢
    rw [if_pos hquote]
    refine string_before ?_ _
    unfold string at h ⊢
    split at h <;> trivial
  rw [if_neg hquote] at h ⊢
  rw [if_neg hquote]
  by_cases hdigit : Decimal.isDigit c = true
  · rw [if_pos hdigit, if_pos hdigit]
    exact number_before hstop (c :: cs) more
  rw [if_neg hdigit] at h ⊢
  rw [if_neg hdigit]
  by_cases hletter : isLetter c = true
  · rw [if_pos hletter, if_pos hletter]
    exact word_before hstop (c :: cs) more
  rw [if_neg hletter] at h ⊢
  rw [if_neg hletter]
  by_cases hslash : c = '/'
  · rw [if_pos hslash] at h ⊢
    rw [if_pos hslash]
    refine slash_before hstop ?_ more
    unfold slash at h
    split at h
    · exact .inl h
    · next hother =>
        refine .inr fun hopen => ?_
        obtain ⟨rest, rfl⟩ := hopen
        exact hother rest rfl
  rw [if_neg hslash, if_neg hslash]
  exact symbol_before hstop c cs more

theorem endsBefore_lineBreak {piece : Piece} (h : piece.isUnclosed = false) :
    piece.EndsBefore '\n' := by
  cases piece with
  | unclosed _ => cases h
  | comment _ => rfl
  | _ => trivial

/-! ## All pieces -/

/-- Every piece takes a character, so that asking for more pieces than that makes no difference. -/
theorem takePieces_eq {n m : Nat} {text : List Char} (hn : text.length ≤ n) (hm : text.length ≤ m) :
    takePieces n text = takePieces m text := by
  -- Every piece takes a character, so the text runs out before the pieces are counted out.
  induction n generalizing m text with
  | zero =>
      obtain rfl := List.eq_nil_of_length_eq_zero (Nat.le_zero.mp hn)
      cases m <;> rfl
  | succ n ih =>
      cases text with
      | nil => cases m <;> rfl
      | cons c cs =>
          cases m with
          | zero => cases hm
          | succ m =>
              have hlength := length_first_le c cs
              rw [List.length_cons] at hn hm
              simp only [takePieces]
              rw [ih (m := m) (by omega) (by omega)]

theorem split_cons (c : Char) (cs : List Char) :
    split (c :: cs) = (first c cs).1 :: split (first c cs).2 := by
  have hlength := length_first_le c cs
  simp only [split, List.length_cons, takePieces]
  rw [takePieces_eq hlength (Nat.le_refl _)]

theorem split_before {text : List Char} (h : ∀ piece ∈ split text, piece.isUnclosed = false)
    (more : List Char) :
    split (text ++ '\n' :: more) = split text ++ .blank '\n' :: split more := by
  induction hn : text.length using Nat.strong_induction_on generalizing text with
  | _ n ih =>
      cases text with
      | nil => exact split_cons '\n' more
      | cons c cs =>
          have hlength := length_first_le c cs
          rw [split_cons] at h
          have hfirst : first c (cs ++ '\n' :: more) = _ :=
            first_before rfl (endsBefore_lineBreak (h _ List.mem_cons_self)) more
          have hrest := ih (first c cs).2.length (by rw [← hn, List.length_cons]; omega)
            (fun piece hpiece => h piece (List.mem_cons_of_mem _ hpiece)) rfl
          rw [List.cons_append, split_cons, hfirst, hrest, split_cons]
          rfl

theorem text_first (c : Char) (cs : List Char) : (first c cs).1.text ++ (first c cs).2 = c :: cs := by
  have hnumber := fraction_append ((c :: cs).dropWhile Decimal.isDigit)
  unfold first
  split
  · rfl
  split
  · next hquote =>
      unfold string
      have hsplit := List.takeWhile_append_dropWhile (p := (· != '"')) (l := cs)
      split
      · simp [text, hquote]
      · next hstop =>
          rw [hstop] at hsplit
          simp [text, hquote, hsplit]
  split
  · simp only [number, text, List.append_assoc, hnumber, List.takeWhile_append_dropWhile]
  split
  · simp only [word, text, List.takeWhile_append_dropWhile]
  split
  · next hslash =>
      unfold slash
      split
      · simp only [text, List.cons_append, List.takeWhile_append_dropWhile, hslash]
      · simp [text, hslash]
  · unfold symbol
    split <;> simp [text]

end Piece

/-! ## Tokens and problems -/

def Scan.down (k : Int) (s : Scan) : Scan where
  tokens := s.tokens.map (Token.down k)
  ending := s.ending.down k
  problems := s.problems.map (Diagnostic.down k)

namespace Scan

theorem ofPieces_down (line k : Int) (pieces : List Piece) :
    ofPieces (line + k) pieces = (ofPieces line pieces).down k := by
  induction pieces generalizing line with
  | nil => rfl
  | cons piece pieces ih =>
      have hlater : ofPieces (line + k + lineBreaks piece.text) pieces =
          (ofPieces (line + lineBreaks piece.text) pieces).down k := by
        rw [Int.add_right_comm]
        exact ih _
      cases piece <;> simp only [ofPieces, hlater] <;> rfl

def lineBreaksOf (pieces : List Piece) : Nat :=
  (pieces.map fun piece => lineBreaks piece.text).sum

theorem ofPieces_append (line : Int) (before after : List Piece) :
    ofPieces line (before ++ after) =
      { tokens := (ofPieces line before).tokens ++
          (ofPieces (line + lineBreaksOf before) after).tokens
        ending := (ofPieces (line + lineBreaksOf before) after).ending
        problems := (ofPieces line before).problems ++
          (ofPieces (line + lineBreaksOf before) after).problems } := by
  induction before generalizing line with
  | nil => simp [ofPieces, lineBreaksOf]
  | cons piece before ih =>
      have hline : line + (lineBreaksOf (piece :: before) : Nat) =
          line + lineBreaks piece.text + lineBreaksOf before := by
        simp [lineBreaksOf, Int.add_assoc]
      rw [hline]
      cases piece <;> simp only [List.cons_append, ofPieces, ih]

theorem lineBreaksOf_split (text : List Char) : lineBreaksOf (Piece.split text) = lineBreaks text := by
  induction hn : text.length using Nat.strong_induction_on generalizing text with
  | _ n ih =>
      cases text with
      | nil => rfl
      | cons c cs =>
          have hlength := Piece.length_first_le c cs
          have hrest := ih (Piece.first c cs).2.length (by rw [← hn, List.length_cons]; omega) _ rfl
          unfold lineBreaksOf at hrest
          rw [Piece.split_cons, lineBreaksOf, List.map_cons, List.sum_cons, hrest, lineBreaks,
            lineBreaks, ← List.count_append, Piece.text_first]
          rfl

theorem closed_of_problems (line : Int) {pieces : List Piece}
    (h : ∀ p ∈ (ofPieces line pieces).problems, p.problem ≠ .unclosedString) :
    ∀ piece ∈ pieces, piece.isUnclosed = false := by
  induction pieces generalizing line with
  | nil => exact nofun
  | cons piece pieces ih =>
      intro other hother
      cases piece with
      | unclosed _ => exact absurd rfl (h _ List.mem_cons_self)
      | stray _ =>
          rcases List.mem_cons.mp hother with rfl | hother
          · rfl
          · exact ih _ (fun p hp => h p (List.mem_cons_of_mem _ hp)) other hother
      | _ =>
          rcases List.mem_cons.mp hother with rfl | hother
          · rfl
          · exact ih _ h other hother

end Scan

/-- A source on a new line behind another one. -/
def joined (before after : String) : String :=
  before ++ "\n" ++ after

/-- How far down a source is behind another one. -/
def linesOf (source : String) : Nat :=
  Scan.lineBreaks source.toList + 1

/-- A source behind empty lines. -/
def lowered : Nat → String → String
  | 0, source => source
  | n + 1, source => "\n" ++ lowered n source

namespace Scan

theorem ofPieces_lowered (line : Int) (n : Nat) (source : String) :
    ofPieces line (Piece.split (lowered n source).toList) =
      ofPieces (line + n) (Piece.split source.toList) := by
  induction n generalizing line with
  | zero => rw [Int.natCast_zero, Int.add_zero, lowered]
  | succ n ih =>
      have htext : (lowered (n + 1) source).toList = '\n' :: (lowered n source).toList := by
        simp [lowered]
      have hline : line + (n + 1 : Nat) = line + lineBreaks ['\n'] + n := by
        rw [Int.natCast_add, Int.add_comm (n : Int), ← Int.add_assoc]
        rfl
      rw [htext, Piece.split_cons, hline, ← ih]
      rfl

theorem ofSource_lowered (n : Nat) (source : String) :
    ofSource (lowered n source) = (ofSource source).down n := by
  unfold ofSource
  rw [ofPieces_lowered, ofPieces_down]

theorem ofSource_joined_of_closed {before : String}
    (h : ∀ piece ∈ Piece.split before.toList, piece.isUnclosed = false) (after : String) :
    ofSource (joined before after) =
      { tokens := (ofSource before).tokens ++ ((ofSource after).down (linesOf before)).tokens
        ending := ((ofSource after).down (linesOf before)).ending
        problems := (ofSource before).problems ++
          ((ofSource after).down (linesOf before)).problems } := by
  have htext : (joined before after).toList = before.toList ++ '\n' :: after.toList := by
    simp [joined]
  have hlines : (1 : Int) + lineBreaksOf (Piece.split before.toList) + lineBreaks ['\n'] =
      1 + linesOf before := by
    rw [lineBreaksOf_split, Int.add_assoc]
    rfl
  have hlater : ofPieces (1 + lineBreaksOf (Piece.split before.toList))
      (.blank '\n' :: Piece.split after.toList) = (ofSource after).down (linesOf before) := by
    unfold ofSource
    rw [← ofPieces_down, ← hlines]
    rfl
  unfold ofSource at hlater ⊢
  rw [htext, Piece.split_before h, ofPieces_append, hlater]

theorem ofSource_joined {before : String} (h : (ofSource before).problems = []) (after : String) :
    ofSource (joined before after) =
      { tokens := (ofSource before).tokens ++ ((ofSource after).down (linesOf before)).tokens
        ending := ((ofSource after).down (linesOf before)).ending
        problems := ((ofSource after).down (linesOf before)).problems } := by
  have hclosed : ∀ piece ∈ Piece.split before.toList, piece.isUnclosed = false := by
    refine closed_of_problems 1 fun p hp => ?_
    change p ∈ (ofSource before).problems at hp
    rw [h] at hp
    cases hp
  rw [ofSource_joined_of_closed hclosed, h]
  rfl

end Scan

end Lox
