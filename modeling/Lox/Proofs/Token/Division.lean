import Lox.Proofs.Token.Lexeme

/-!
# Scanning divides the source

A source falls into blanks, comments, tokens, stray characters and at most one unclosed string.
`Divides` says so of a text, its tokens and its problems: nothing is left over, and every token is
the longest that stands at its place.
-/

namespace Lox

/-- The text is a token in front of `rest`, and no longer text there is a token. -/
structure LongestLexeme (kind : Token.Kind) (text rest : List Char) (literal : Literal) :
    Prop where
  lexeme : Lexeme kind text literal
  length_le : ∀ {kind' text' literal'}, Lexeme kind' text' literal' → text' <+: text ++ rest →
    text'.length ≤ text.length

/-- The pieces of a text, from its front to its end: the tokens and problems are in their order. -/
inductive Divides : List Char → List Token → List Diagnostic → Prop where
  | nil : Divides [] [] []
  | blank : c ∈ [' ', '\t', '\r', '\n'] → Divides rest tokens problems →
      Divides (c :: rest) tokens problems
  | comment : '\n' ∉ body → (∀ c ∈ rest.head?, c = '\n') → Divides rest tokens problems →
      Divides ('/' :: '/' :: body ++ rest) tokens problems
  | token : LongestLexeme t.kind text rest t.literal → t.lexeme = String.ofList text →
      ¬ ['/', '/'] <+: text ++ rest → Divides rest tokens problems →
      Divides (text ++ rest) (t :: tokens) problems
  | stray : c ∉ [' ', '\t', '\r', '\n', '"'] →
      (∀ {kind text literal}, Lexeme kind text literal → ¬ text <+: c :: rest) →
      p.message = "Unexpected character." → Divides rest tokens problems →
      Divides (c :: rest) tokens (p :: problems)
  | unclosed : '"' ∉ body → p.message = "Unterminated string." → Divides ('"' :: body) [] [p]

/-- The pieces are those of the text, whatever line it starts on. -/
def Piece.Divide (text : List Char) (pieces : List Piece) : Prop :=
  ∀ line, Divides text (Scan.ofPieces line pieces).tokens (Scan.ofPieces line pieces).problems

namespace Piece

variable {c : Char} {cs : List Char} {pieces : List Piece}

/-! ## One piece -/

theorem isBlank_iff : isBlank c = true ↔ c ∈ [' ', '\t', '\r', '\n'] := by
  simp [isBlank, or_assoc]

theorem divide_blank (hc : isBlank c = true) (hrest : Divide cs pieces) :
    Divide (c :: cs) (.blank c :: pieces) := by
  intro line
  exact .blank (isBlank_iff.mp hc) (hrest _)

theorem divide_token {kind : Token.Kind} {source text rest : List Char}
    (hsource : text ++ rest = source) (hlexeme : Lexeme kind text (Scan.literal kind text))
    (hlongest : ∀ {kind' text' literal'}, Lexeme kind' text' literal' → text' <+: source →
      text'.length ≤ text.length)
    (hcomment : ¬ ['/', '/'] <+: source) (hrest : Divide rest pieces) :
    Divide source (.token kind text :: pieces) := by
  subst hsource
  intro line
  exact .token (t := Scan.token line kind text) ⟨hlexeme, hlongest⟩ rfl hcomment (hrest _)

theorem divide_string (hrest : Divide (string cs).2 pieces)
    (hend : (string cs).2 = [] → pieces = []) :
    Divide ('"' :: cs) ((string cs).1 :: pieces) := by
  have hinner : '"' ∉ cs.takeWhile (· != '"') := by
    intro hmem
    have := List.mem_takeWhile_imp hmem
    simp at this
  generalize hstop : cs.dropWhile (· != '"') = stop
  have hsplit : cs.takeWhile (· != '"') ++ stop = cs := by
    rw [← hstop]
    exact List.takeWhile_append_dropWhile
  simp only [string, hstop] at hrest hend ⊢
  cases stop with
  | nil =>
    intro line
    rw [hend rfl]
    rw [List.append_nil] at hsplit
    exact .unclosed (hsplit ▸ hinner) rfl
  | cons quote rest =>
    have hquote : quote = '"' := by
      have := List.head?_dropWhile_not (· != '"') cs
      rw [hstop] at this
      simpa using this
    subst hquote
    have htext : ('"' :: cs.takeWhile (· != '"') ++ ['"']) ++ rest = '"' :: cs := by
      simp [hsplit]
    apply divide_token htext _ _ (by simp) hrest
    · have hliteral : Scan.literal .string ('"' :: cs.takeWhile (· != '"') ++ ['"']) =
          .string (String.ofList (cs.takeWhile (· != '"'))) := by
        simp [Scan.literal]
      rw [hliteral]
      exact .string hinner
    · intro kind text literal hlexeme hpre
      cases text with
      | nil => exact absurd rfl hlexeme.ne_nil
      | cons d more =>
        obtain ⟨rfl, hmore⟩ := List.cons_prefix_cons.mp hpre
        obtain ⟨inner, hno, rfl⟩ := hlexeme.string_of_quote
        rw [(string_length_eq hno hmore).1]
        simp

theorem fraction_append (text : List Char) : (fraction text).1 ++ (fraction text).2 = text := by
  unfold fraction
  split
  · split
    · simp
    · rfl
  · rfl

theorem isNumeral_number (hc : Decimal.isDigit c = true) (cs : List Char) :
    IsNumeral ((c :: cs).takeWhile Decimal.isDigit ++
      (fraction ((c :: cs).dropWhile Decimal.isDigit)).1) := by
  have hdigits : IsDigits ((c :: cs).takeWhile Decimal.isDigit) := by
    constructor
    · simp [hc]
    · intro d hd
      exact List.mem_takeWhile_imp hd
  generalize (c :: cs).dropWhile Decimal.isDigit = rest
  unfold fraction
  split
  · split
    · rename_i d more hd
      apply IsNumeral.fraction hdigits
      constructor
      · simp
      · intro e he
        rcases List.mem_cons.mp he with rfl | he
        · exact hd
        · exact List.mem_takeWhile_imp he
    · simpa using IsNumeral.whole hdigits
  · simpa using IsNumeral.whole hdigits

theorem divide_number (hc : Decimal.isDigit c = true)
    (hrest : Divide (number (c :: cs)).2 pieces) :
    Divide (c :: cs) ((number (c :: cs)).1 :: pieces) := by
  have hnumeral := isNumeral_number hc cs
  have htext : ((c :: cs).takeWhile Decimal.isDigit ++
      (fraction ((c :: cs).dropWhile Decimal.isDigit)).1) ++
        (fraction ((c :: cs).dropWhile Decimal.isDigit)).2 = c :: cs := by
    rw [List.append_assoc, fraction_append, List.takeWhile_append_dropWhile]
  apply divide_token htext (.number hnumeral) _ _ hrest
  · intro kind text literal hlexeme hpre
    cases text with
    | nil => exact absurd rfl hlexeme.ne_nil
    | cons d more =>
      obtain rfl : d = c := (List.cons_prefix_cons.mp hpre).1
      rw [List.length_append]
      exact (hlexeme.numeral_of_isDigit hc).length_le hpre
  · intro hpre
    obtain rfl : '/' = c := (List.cons_prefix_cons.mp hpre).1
    exact absurd hc (by decide)

theorem mem_of_lookup {word : String} {kind : Token.Kind} {table : List (String × Token.Kind)}
    (h : table.lookup word = some kind) : (word, kind) ∈ table := by
  obtain ⟨before, after, rfl, _⟩ := List.lookup_eq_some_iff.mp h
  simp

theorem lexeme_word {text : List Char} (h : IsWord text) :
    Lexeme (Token.Kind.ofWord (String.ofList text)) text
      (Scan.literal (Token.Kind.ofWord (String.ofList text)) text) := by
  unfold Token.Kind.ofWord
  cases hlookup : Token.keywords.lookup (String.ofList text) with
  | none =>
    rw [List.lookup_eq_none_iff] at hlookup
    apply Lexeme.name h
    intro kind hmem
    simpa using hlookup _ hmem
  | some kind =>
    have hmem := mem_of_lookup hlookup
    have hplain : ∀ entry ∈ Token.keywords, ∀ text, Scan.literal entry.2 text = .nil := by
      simp [Token.keywords, Scan.literal]
    rw [Option.getD_some, hplain _ hmem]
    exact .keyword h hmem

theorem divide_word (hc : isLetter c = true) (hrest : Divide (word (c :: cs)).2 pieces) :
    Divide (c :: cs) ((word (c :: cs)).1 :: pieces) := by
  have hword : IsWord ((c :: cs).takeWhile isWordChar) := by
    rw [List.takeWhile_cons_of_pos (isWordChar_of_isLetter hc)]
    constructor
    · exact hc
    · intro d hd
      exact List.mem_takeWhile_imp hd
  apply divide_token List.takeWhile_append_dropWhile (lexeme_word hword) _ _ hrest
  · intro kind text literal hlexeme hpre
    cases text with
    | nil => exact absurd rfl hlexeme.ne_nil
    | cons d more =>
      obtain rfl : d = c := (List.cons_prefix_cons.mp hpre).1
      exact (hlexeme.word_of_isLetter hc).length_le hpre
  · intro hpre
    obtain rfl : '/' = c := (List.cons_prefix_cons.mp hpre).1
    exact absurd hc (by decide)

theorem divide_comment (hrest : Divide (cs.dropWhile (· != '\n')) pieces) :
    Divide ('/' :: '/' :: cs) (.comment ('/' :: '/' :: cs.takeWhile (· != '\n')) :: pieces) := by
  intro line
  have hbody : '\n' ∉ cs.takeWhile (· != '\n') := by
    intro hmem
    have := List.mem_takeWhile_imp hmem
    simp at this
  have hstop : ∀ c ∈ (cs.dropWhile (· != '\n')).head?, c = '\n' := by
    intro c hc
    have := List.head?_dropWhile_not (· != '\n') cs
    rw [Option.mem_def.mp hc] at this
    simpa using this
  have hcomment := Divides.comment hbody hstop
    (hrest (line + Scan.lineBreaks ('/' :: '/' :: cs.takeWhile (· != '\n'))))
  rwa [List.cons_append, List.cons_append, List.takeWhile_append_dropWhile] at hcomment

theorem divide_slash (hrest : Divide (slash cs).2 pieces) :
    Divide ('/' :: cs) ((slash cs).1 :: pieces) := by
  by_cases hopen : ['/'] <+: cs
  · obtain ⟨more, rfl⟩ := hopen
    exact divide_comment hrest
  · have hslash : slash cs = (.token .slash ['/'], cs) := by
      unfold slash
      split
      · simp at hopen
      · rfl
    rw [hslash] at hrest ⊢
    apply divide_token List.singleton_append (.sign (by decide)) _ _ hrest
    · intro kind text literal hlexeme hpre
      cases text with
      | nil => exact absurd rfl hlexeme.ne_nil
      | cons d more =>
        obtain rfl : d = '/' := (List.cons_prefix_cons.mp hpre).1
        have hsign := hlexeme.sign_of_other (by decide) (by decide) (by decide)
        have hshort : ∀ entry ∈ signs, entry.1.head? = some '/' → entry.1.length ≤ 1 := by decide
        exact hshort _ hsign rfl
    · intro hpre
      exact hopen (List.cons_prefix_cons.mp hpre).2

theorem sign_of_single? {kind : Token.Kind} (h : single? c = some kind) :
    ([c], kind) ∈ signs ∧ ∀ {more kind'}, (c :: more, kind') ∈ signs → more = [] := by
  unfold single? at h
  split at h <;> cases h <;> simp [signs]

theorem sign_of_extensible? {extended alone : Token.Kind}
    (h : extensible? c = some (extended, alone)) :
    ([c, '='], extended) ∈ signs ∧ ([c], alone) ∈ signs ∧
      ∀ {more kind'}, (c :: more, kind') ∈ signs → more = [] ∨ more = ['='] := by
  unfold extensible? at h
  split at h <;> cases h <;> simp +contextual [signs, or_imp]

theorem not_sign {more : List Char} {kind : Token.Kind} (hsingle : single? c = none)
    (hextensible : extensible? c = none) (hslash : c ≠ '/') : (c :: more, kind) ∉ signs := by
  have hall : ∀ entry ∈ signs, entry.1.head?.all fun d =>
      (single? d).isSome || (extensible? d).isSome || d == '/' := by decide
  intro hmem
  have hd := hall _ hmem
  simp [hsingle, hextensible, hslash] at hd

theorem lexeme_sign {text : List Char} {kind : Token.Kind} (h : (text, kind) ∈ signs) :
    Lexeme kind text (Scan.literal kind text) := by
  have hplain : ∀ entry ∈ signs, Scan.literal entry.2 entry.1 = .nil := by decide
  rw [hplain _ h]
  exact .sign h

theorem sign_of_prefix {kind : Token.Kind} {text : List Char} {literal : Literal}
    (hquote : c ≠ '"') (hdigit : Decimal.isDigit c = false) (hletter : isLetter c = false)
    (h : Lexeme kind text literal) (hpre : text <+: c :: cs) :
    ∃ more, text = c :: more ∧ more <+: cs ∧ (c :: more, kind) ∈ signs := by
  cases text with
  | nil => exact absurd rfl h.ne_nil
  | cons d more =>
    obtain ⟨rfl, hmore⟩ := List.cons_prefix_cons.mp hpre
    exact ⟨more, rfl, hmore, h.sign_of_other hdigit hletter hquote⟩

theorem divide_symbol (hblank : isBlank c = false) (hquote : c ≠ '"')
    (hdigit : Decimal.isDigit c = false) (hletter : isLetter c = false) (hslash : c ≠ '/')
    (hrest : Divide (symbol c cs).2 pieces) :
    Divide (c :: cs) ((symbol c cs).1 :: pieces) := by
  have hcomment : ¬ ['/', '/'] <+: c :: cs := by
    intro hpre
    exact hslash (List.cons_prefix_cons.mp hpre).1.symm
  have hprefix : ∀ {kind' text literal}, Lexeme kind' text literal → text <+: c :: cs →
      ∃ more, text = c :: more ∧ more <+: cs ∧ (c :: more, kind') ∈ signs :=
    fun hlexeme hpre => sign_of_prefix hquote hdigit hletter hlexeme hpre
  cases hsingle : single? c with
  | some kind =>
    simp only [symbol, hsingle] at hrest ⊢
    obtain ⟨hmem, hshort⟩ := sign_of_single? hsingle
    apply divide_token List.singleton_append (lexeme_sign hmem) _ hcomment hrest
    intro kind' text literal hlexeme hpre
    obtain ⟨more, rfl, _, hsign⟩ := hprefix hlexeme hpre
    simp [hshort hsign]
  | none =>
    cases hextensible : extensible? c with
    | none =>
      simp only [symbol, hsingle, hextensible] at hrest ⊢
      intro line
      apply Divides.stray _ _ rfl (hrest _)
      · intro hmem
        have : isBlank c = true ∨ c = '"' := by
          simpa [isBlank, or_assoc] using hmem
        simp [hblank, hquote] at this
      · intro kind text literal hlexeme hpre
        obtain ⟨more, rfl, _, hsign⟩ := hprefix hlexeme hpre
        exact not_sign hsingle hextensible hslash hsign
    | some kinds =>
      obtain ⟨extended, alone⟩ := kinds
      obtain ⟨hextended, halone, hshort⟩ := sign_of_extensible? hextensible
      by_cases hequal : ['='] <+: cs
      · obtain ⟨rest, rfl⟩ := hequal
        simp only [symbol, hsingle, hextensible, List.singleton_append] at hrest ⊢
        have hsource : [c, '='] ++ rest = c :: '=' :: rest := rfl
        apply divide_token hsource (lexeme_sign hextended) _ hcomment hrest
        intro kind' text literal hlexeme hpre
        obtain ⟨more, rfl, _, hsign⟩ := hprefix hlexeme hpre
        rcases hshort hsign with rfl | rfl
        · simp
        · simp
      · have hsymbol : symbol c cs = (.token alone [c], cs) := by
          unfold symbol
          split <;> simp_all
        rw [hsymbol] at hrest ⊢
        apply divide_token List.singleton_append (lexeme_sign halone) _ hcomment hrest
        intro kind' text literal hlexeme hpre
        obtain ⟨more, rfl, hmore, hsign⟩ := hprefix hlexeme hpre
        rcases hshort hsign with rfl | rfl
        · simp
        · exact absurd hmore hequal

/-! ## All pieces -/

theorem divide_first (hrest : Divide (first c cs).2 pieces)
    (hend : (first c cs).2 = [] → pieces = []) : Divide (c :: cs) ((first c cs).1 :: pieces) := by
  unfold first at hrest hend ⊢
  by_cases hblank : isBlank c = true
  · simp only [hblank, if_true] at hrest ⊢
    exact divide_blank hblank hrest
  by_cases hquote : c = '"'
  · subst hquote
    exact divide_string hrest hend
  by_cases hdigit : Decimal.isDigit c = true
  · simp only [hblank, hquote, hdigit, if_true, if_false] at hrest ⊢
    exact divide_number hdigit hrest
  by_cases hletter : isLetter c = true
  · simp only [hblank, hquote, hdigit, hletter, if_true, if_false] at hrest ⊢
    exact divide_word hletter hrest
  by_cases hslash : c = '/'
  · subst hslash
    exact divide_slash hrest
  simp only [hblank, hquote, hdigit, hletter, hslash, if_false] at hrest ⊢
  exact divide_symbol (by simpa using hblank) hquote (by simpa using hdigit)
    (by simpa using hletter) hslash hrest

theorem length_dropWhile_le (p : Char → Bool) (text : List Char) :
    (text.dropWhile p).length ≤ text.length :=
  (List.dropWhile_sublist p).length_le

theorem length_string_le (cs : List Char) : (string cs).2.length ≤ cs.length := by
  have hdrop := length_dropWhile_le (· != '"') cs
  unfold string
  split
  · exact Nat.zero_le _
  · rename_i hstop
    rw [hstop, List.length_cons] at hdrop
    exact Nat.le_of_succ_le hdrop

theorem length_number_le (hc : Decimal.isDigit c = true) :
    (number (c :: cs)).2.length ≤ cs.length := by
  have hdrop := length_dropWhile_le Decimal.isDigit cs
  have hfraction := congrArg List.length (fraction_append (cs.dropWhile Decimal.isDigit))
  rw [List.length_append] at hfraction
  simp only [number, List.dropWhile_cons_of_pos hc]
  omega

theorem length_slash_le (cs : List Char) : (slash cs).2.length ≤ cs.length := by
  unfold slash
  split
  · exact length_dropWhile_le _ _
  · exact Nat.le_refl _

theorem length_symbol_le (c : Char) (cs : List Char) : (symbol c cs).2.length ≤ cs.length := by
  unfold symbol
  split <;> simp

theorem length_first_le (c : Char) (cs : List Char) : (first c cs).2.length ≤ cs.length := by
  unfold first
  split
  · exact Nat.le_refl _
  split
  · exact length_string_le cs
  split
  · exact length_number_le ‹_›
  split
  · rename_i hletter
    simp only [word, List.dropWhile_cons_of_pos (isWordChar_of_isLetter hletter)]
    exact length_dropWhile_le _ _
  split
  · exact length_slash_le cs
  · exact length_symbol_le c cs

/-- Every piece takes at least one character, so the pieces run out before they are counted out. -/
theorem divide_takePieces {n : Nat} {text : List Char} (hn : text.length ≤ n) :
    Divide text (takePieces n text) := by
  induction n generalizing text with
  | zero =>
    obtain rfl : text = [] := List.eq_nil_of_length_eq_zero (Nat.le_zero.mp hn)
    intro line
    exact .nil
  | succ n ih =>
    cases text with
    | nil =>
      intro line
      exact .nil
    | cons c cs =>
      have hlength := length_first_le c cs
      rw [List.length_cons] at hn
      have hlater : Divide (first c cs).2 (takePieces n (first c cs).2) := by
        apply ih
        omega
      have hend : (first c cs).2 = [] → takePieces n (first c cs).2 = [] := by
        intro hnil
        rw [hnil]
        cases n <;> rfl
      exact divide_first hlater hend

end Piece

theorem Scan.ending_ofPieces (line : Int) (pieces : List Piece) :
    ∃ last, (ofPieces line pieces).ending = .atEnd last := by
  induction pieces generalizing line with
  | nil => exact ⟨line, rfl⟩
  | cons piece pieces ih => cases piece <;> exact ih _

theorem Lexeme.kind_ne_ending {kind : Token.Kind} {text : List Char} {literal : Literal}
    (h : Lexeme kind text literal) : kind ≠ .ending := by
  cases h with
  | number _ => decide
  | keyword _ hmem =>
    have hall : ∀ entry ∈ Token.keywords, entry.2 ≠ .ending := by decide
    exact hall _ hmem
  | name _ _ => decide
  | string _ => decide
  | sign hmem =>
    have hall : ∀ entry ∈ signs, entry.2 ≠ .ending := by decide
    exact hall _ hmem

theorem Divides.kind_ne_ending {text : List Char} {tokens : List Token}
    {problems : List Diagnostic} (h : Divides text tokens problems) :
    ∀ t ∈ tokens, t.kind ≠ .ending := by
  induction h with
  | nil => simp
  | blank _ _ ih => exact ih
  | comment _ _ _ ih => exact ih
  | token hlongest _ _ _ ih =>
    intro t ht
    rcases List.mem_cons.mp ht with rfl | ht
    · exact hlongest.lexeme.kind_ne_ending
    · exact ih t ht
  | stray _ _ _ _ ih => exact ih
  | unclosed _ _ => simp

/--
A source is divided into blanks, comments, longest tokens, stray characters and at most one
unclosed string, with one problem for each of the last two; one closing token follows the others.
-/
theorem Scan.ofSource_divides (source : String) :
    Divides source.toList (ofSource source).tokens (ofSource source).problems ∧
      ∃ last, (ofSource source).all = (ofSource source).tokens ++ [.atEnd last] ∧
        ∀ t ∈ (ofSource source).tokens, t.kind ≠ .ending := by
  have hdivides : Divides source.toList (ofSource source).tokens (ofSource source).problems :=
    Piece.divide_takePieces (Nat.le_refl _) 1
  obtain ⟨last, hlast⟩ := ending_ofPieces 1 (Piece.split source.toList)
  refine ⟨hdivides, last, ?_, hdivides.kind_ne_ending⟩
  rw [← hlast]
  rfl

/-- A comment ends before the end of its line, and a string goes on past it. -/
example : (Scan.ofSource "1.x//..\n\"//\n\"!==#\"").tokens.map (·.lexeme) =
    ["1", ".", "x", "\"//\n\"", "!=", "="] := by decide

end Lox
