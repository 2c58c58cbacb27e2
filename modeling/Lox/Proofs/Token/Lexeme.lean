import Lox.Token.Scan
import Mathlib.Data.List.TakeWhile

/-!
# The texts that are tokens

What a token may look like, said without saying how it is found: numbers, words, strings and signs.
The first character tells these four apart, so that each class can be measured on its own:
`IsNumeral.length_le`, `IsWord.length_le` and `string_length_eq` say how far a token of the class
reaches at most into a given text.
-/

namespace Lox

/-! ## Shapes -/

def IsDigits (text : List Char) : Prop :=
  text ≠ [] ∧ ∀ c ∈ text, Decimal.isDigit c = true

/-- Digits, or digits on both sides of a point. -/
inductive IsNumeral : List Char → Prop where
  | whole : IsDigits digits → IsNumeral digits
  | fraction : IsDigits digits → IsDigits decimals → IsNumeral (digits ++ '.' :: decimals)

/-- A letter or underscore, and after it letters, underscores and digits. -/
inductive IsWord : List Char → Prop where
  | mk : Piece.isLetter c = true → (∀ d ∈ more, Piece.isWordChar d = true) → IsWord (c :: more)

/-- Operators and punctuation. -/
def signs : List (List Char × Token.Kind) :=
  [(['('], .leftParen), ([')'], .rightParen), (['\x7b'], .leftBrace), (['\x7d'], .rightBrace),
   ([','], .comma), (['.'], .dot), (['-'], .minus), (['+'], .plus), ([';'], .semicolon),
   (['/'], .slash), (['*'], .star), (['!'], .bang), (['!', '='], .bangEqual), (['='], .equal),
   (['=', '='], .equalEqual), (['>'], .greater), (['>', '='], .greaterEqual), (['<'], .less),
   (['<', '='], .lessEqual)]

/-- The texts that are tokens of a kind, with the values that they stand for. -/
inductive Lexeme : Token.Kind → List Char → Literal → Prop where
  | number : IsNumeral text → Lexeme .number text (.number (Decimal.readPositional text))
  | keyword : IsWord text → (String.ofList text, kind) ∈ Token.keywords → Lexeme kind text .nil
  | name : IsWord text → (∀ kind, (String.ofList text, kind) ∉ Token.keywords) →
      Lexeme .name text .nil
  | string {inner : List Char} : '"' ∉ inner →
      Lexeme .string ('"' :: inner ++ ['"']) (.string (String.ofList inner))
  | sign : (text, kind) ∈ signs → Lexeme kind text .nil

/-! ## First characters -/

theorem isDigit_iff {c : Char} :
    Decimal.isDigit c = true ↔ 48 ≤ c.val.toNat ∧ c.val.toNat ≤ 57 := by
  simp only [Decimal.isDigit, decide_eq_true_eq, Char.le_def, UInt32.le_iff_toNat_le]
  rfl

theorem isLetter_iff {c : Char} :
    Piece.isLetter c = true ↔
      ((97 ≤ c.val.toNat ∧ c.val.toNat ≤ 122) ∨ (65 ≤ c.val.toNat ∧ c.val.toNat ≤ 90)) ∨
        c = '_' := by
  simp only [Piece.isLetter, Bool.or_eq_true, decide_eq_true_eq, Char.le_def,
    UInt32.le_iff_toNat_le, beq_iff_eq]
  rfl

theorem not_isDigit_of_isLetter {c : Char} (h : Piece.isLetter c = true) :
    Decimal.isDigit c = false := by
  rw [← Bool.not_eq_true, isDigit_iff]
  rcases isLetter_iff.mp h with h | rfl
  · omega
  · decide

theorem isWordChar_of_isLetter {c : Char} (h : Piece.isLetter c = true) :
    Piece.isWordChar c = true := by
  simp [Piece.isWordChar, h]

theorem not_isDigit_quote : Decimal.isDigit '"' = false := by decide

theorem not_isLetter_quote : Piece.isLetter '"' = false := by decide

/-- A sign starts with nothing that a token of another class starts with. -/
theorem head_of_mem_signs {c : Char} {more : List Char} {kind : Token.Kind}
    (h : (c :: more, kind) ∈ signs) :
    Decimal.isDigit c = false ∧ Piece.isLetter c = false ∧ c ≠ '"' := by
  have hall : ∀ entry ∈ signs, entry.1.head?.all fun c =>
      !Decimal.isDigit c && !Piece.isLetter c && c != '"' := by decide
  simpa [and_assoc] using hall _ h

theorem IsDigits.head {c : Char} {more : List Char} (h : IsDigits (c :: more)) :
    Decimal.isDigit c = true :=
  h.2 c List.mem_cons_self

theorem IsNumeral.head {c : Char} {more : List Char} (h : IsNumeral (c :: more)) :
    Decimal.isDigit c = true := by
  generalize htext : c :: more = text at h
  cases h with
  | whole hdigits =>
    subst htext
    exact hdigits.head
  | @fraction digits decimals hdigits _ =>
    cases digits with
    | nil => exact absurd rfl hdigits.1
    | cons d digits =>
      obtain rfl : c = d := (List.cons.inj htext).1
      exact hdigits.head

theorem IsWord.head {c : Char} {more : List Char} (h : IsWord (c :: more)) :
    Piece.isLetter c = true := by
  cases h
  assumption

/-! ## One class at a time -/

namespace Lexeme

variable {kind : Token.Kind} {text : List Char} {literal : Literal} {c : Char} {more : List Char}

theorem ne_nil (h : Lexeme kind text literal) : text ≠ [] := by
  cases h with
  | number h =>
    cases h with
    | whole hdigits => exact hdigits.1
    | fraction _ _ => simp
  | keyword h _ => cases h; simp
  | name h _ => cases h; simp
  | string _ => simp
  | sign h =>
    have hall : ∀ entry ∈ signs, entry.1 ≠ [] := by decide
    exact hall _ h

theorem numeral_of_isDigit (h : Lexeme kind (c :: more) literal) (hc : Decimal.isDigit c = true) :
    IsNumeral (c :: more) := by
  generalize htext : c :: more = text at h
  cases h with
  | number h => exact h
  | keyword h _ =>
    subst htext
    simp [not_isDigit_of_isLetter h.head] at hc
  | name h _ =>
    subst htext
    simp [not_isDigit_of_isLetter h.head] at hc
  | string _ =>
    obtain rfl : c = '"' := (List.cons.inj htext).1
    simp [not_isDigit_quote] at hc
  | sign h =>
    subst htext
    simp [(head_of_mem_signs h).1] at hc

theorem word_of_isLetter (h : Lexeme kind (c :: more) literal) (hc : Piece.isLetter c = true) :
    IsWord (c :: more) := by
  generalize htext : c :: more = text at h
  cases h with
  | number h =>
    subst htext
    have hdigit := h.head
    simp [not_isDigit_of_isLetter hc] at hdigit
  | keyword h _ => exact h
  | name h _ => exact h
  | string _ =>
    obtain rfl : c = '"' := (List.cons.inj htext).1
    simp [not_isLetter_quote] at hc
  | sign h =>
    subst htext
    simp [(head_of_mem_signs h).2.1] at hc

theorem string_of_quote (h : Lexeme kind ('"' :: more) literal) :
    ∃ inner, '"' ∉ inner ∧ more = inner ++ ['"'] := by
  generalize htext : '"' :: more = text at h
  cases h with
  | number h =>
    subst htext
    exact absurd h.head (by decide)
  | keyword h _ =>
    subst htext
    exact absurd h.head (by decide)
  | name h _ =>
    subst htext
    exact absurd h.head (by decide)
  | @string inner hinner => exact ⟨inner, hinner, (List.cons.inj htext).2⟩
  | sign h =>
    subst htext
    exact absurd rfl (head_of_mem_signs h).2.2

theorem sign_of_other (h : Lexeme kind (c :: more) literal) (hdigit : Decimal.isDigit c = false)
    (hletter : Piece.isLetter c = false) (hquote : c ≠ '"') : (c :: more, kind) ∈ signs := by
  generalize htext : c :: more = text at h
  cases h with
  | number h =>
    subst htext
    simp [h.head] at hdigit
  | keyword h _ =>
    subst htext
    simp [h.head] at hletter
  | name h _ =>
    subst htext
    simp [h.head] at hletter
  | string _ => exact absurd (List.cons.inj htext).1 hquote
  | sign h => exact h

end Lexeme

/-! ## How far a token of a class reaches -/

theorem length_le_takeWhile {p : Char → Bool} {text source : List Char}
    (hpre : text <+: source) (hall : ∀ c ∈ text, p c = true) :
    text.length ≤ (source.takeWhile p).length := by
  obtain ⟨rest, rfl⟩ := hpre
  rw [List.takeWhile_append_of_pos hall, List.length_append]
  exact Nat.le_add_right _ _

theorem takeWhile_of_stop {p : Char → Bool} {text rest : List Char} {c : Char}
    (hall : ∀ d ∈ text, p d = true) (hc : p c = false) :
    (text ++ c :: rest).takeWhile p = text ∧ (text ++ c :: rest).dropWhile p = c :: rest := by
  rw [List.takeWhile_append_of_pos hall, List.dropWhile_append_of_pos hall]
  simp [hc]

theorem IsWord.length_le {text source : List Char} (h : IsWord text) (hpre : text <+: source) :
    text.length ≤ (source.takeWhile Piece.isWordChar).length := by
  apply length_le_takeWhile hpre
  cases h with
  | mk hc hmore =>
    intro d hd
    rcases List.mem_cons.mp hd with rfl | hd
    · exact isWordChar_of_isLetter hc
    · exact hmore d hd

theorem IsNumeral.length_le {text source : List Char} (h : IsNumeral text)
    (hpre : text <+: source) :
    text.length ≤ (source.takeWhile Decimal.isDigit).length +
      (Piece.fraction (source.dropWhile Decimal.isDigit)).1.length := by
  cases h with
  | whole hdigits => exact Nat.le_add_right_of_le (length_le_takeWhile hpre hdigits.2)
  | @fraction digits decimals hdigits hdecimals =>
    obtain ⟨rest, rfl⟩ := hpre
    rw [List.append_assoc, List.cons_append]
    have hpoint : Decimal.isDigit '.' = false := by decide
    rw [(takeWhile_of_stop hdigits.2 hpoint).1, (takeWhile_of_stop hdigits.2 hpoint).2]
    cases decimals with
    | nil => exact absurd rfl hdecimals.1
    | cons d decimals =>
      have htail : decimals.length ≤ ((decimals ++ rest).takeWhile Decimal.isDigit).length :=
        length_le_takeWhile (List.prefix_append _ _)
          (fun c hc => hdecimals.2 c (List.mem_cons_of_mem _ hc))
      simp only [List.cons_append, Piece.fraction, hdecimals.head, if_true, List.length_append,
        List.length_cons]
      omega

theorem string_length_eq {inner source : List Char} (hinner : '"' ∉ inner)
    (hpre : inner ++ ['"'] <+: source) :
    source.takeWhile (· != '"') = inner ∧ source.dropWhile (· != '"') ≠ [] := by
  obtain ⟨rest, rfl⟩ := hpre
  have hall : ∀ d ∈ inner, (d != '"') = true := by
    intro d hd
    simp only [bne_iff_ne, ne_eq]
    rintro rfl
    exact hinner hd
  rw [List.append_assoc, List.singleton_append]
  have hstop : ('"' != '"') = false := by decide
  rw [(takeWhile_of_stop hall hstop).1, (takeWhile_of_stop hall hstop).2]
  simp

end Lox
