import Lox.Proofs.Joining.Text

/-!
# Pieces at the front of a text

Where a piece ends is decided by the character behind it.  So a piece stays what it is if the text
behind it is cut short, and the first pieces of a source are the pieces of the text that they make
up.
-/

namespace Lox.Piece

variable {c : Char} {cs rest : List Char}

/-- A text that begins with the text of the piece begins with this piece. -/
def Leads (piece : Piece) (rest : List Char) : Prop :=
  ∃ c cs, piece.text = c :: cs ∧ first c (cs ++ rest) = (piece, rest)

theorem Leads.split {piece : Piece} (h : piece.Leads rest) :
    split (piece.text ++ rest) = piece :: split rest := by
  obtain ⟨c, cs, htext, hfirst⟩ := h
  rw [htext, List.cons_append, split_cons, hfirst]

/-! ## One piece -/

theorem takeWhile_prefix {p : Char → Bool} (h : rest <+: cs.dropWhile p) :
    (cs.takeWhile p ++ rest).takeWhile p = cs.takeWhile p ∧
      (cs.takeWhile p ++ rest).dropWhile p = rest := by
  have hall : ∀ d ∈ cs.takeWhile p, p d = true := fun d hd => List.mem_takeWhile_imp hd
  cases rest with
  | nil =>
      rw [List.append_nil]
      exact ⟨List.takeWhile_eq_self_iff.mpr hall, List.dropWhile_eq_nil_iff.mpr hall⟩
  | cons d more =>
      have hstop : p d = false := by
        have hhead := List.head?_dropWhile_not p cs
        obtain ⟨rest, hrest⟩ := h
        rw [← hrest] at hhead
        simpa using hhead
      exact takeWhile_of_stop hall hstop

theorem leads_string (hclosed : (string cs).1.isUnclosed = false) (h : rest <+: (string cs).2) :
    (string cs).1.Leads rest := by
  unfold string at hclosed h ⊢
  cases hstop : cs.dropWhile (· != '"') with
  | nil =>
      rw [hstop] at hclosed
      cases hclosed
  | cons quote more =>
      rw [hstop] at h
      have hquote : quote :: rest <+: cs.dropWhile (· != '"') := by
        rw [hstop]
        exact List.prefix_cons_inj quote |>.mpr h
      obtain ⟨htake, hdrop⟩ := takeWhile_prefix hquote
      refine ⟨'"', cs.takeWhile (· != '"') ++ [quote], rfl, ?_⟩
      have hfirst : first '"' (cs.takeWhile (· != '"') ++ [quote] ++ rest) =
          string (cs.takeWhile (· != '"') ++ quote :: rest) := by
        rw [List.append_assoc]
        rfl
      rw [hfirst, string, hdrop, htake]

theorem fraction_prefix (h : rest <+: (fraction cs).2) :
    fraction ((fraction cs).1 ++ rest) = ((fraction cs).1, rest) := by
  have bare : ∀ {text : List Char}, (∀ d more, text = '.' :: d :: more → Decimal.isDigit d = false) →
      fraction text = ([], text) := by
    intro text hnone
    unfold fraction
    split
    · next d more => rw [if_neg (by rw [hnone d more rfl]; exact Bool.false_ne_true)]
    · rfl
  unfold fraction at h ⊢
  split at h
  · next d more =>
      split at h
      · next hd =>
          obtain ⟨htake, hdrop⟩ := takeWhile_prefix h
          simp only [hd, if_true, List.cons_append, htake, hdrop]
      · next hd =>
          rw [if_neg hd]
          refine bare fun e others hrest => ?_
          rw [List.nil_append] at hrest
          subst hrest
          obtain ⟨-, hmore⟩ := List.cons_prefix_cons.mp h
          obtain ⟨rfl, -⟩ := List.cons_prefix_cons.mp hmore
          exact Bool.eq_false_iff.mpr hd
  · next hother =>
      refine bare fun d more hrest => ?_
      rw [List.nil_append] at hrest
      subst hrest
      obtain ⟨others, hothers⟩ := h
      exact absurd hothers.symm (hother d (more ++ others))

theorem leads_number (hc : Decimal.isDigit c = true) (hblank : isBlank c = false) (hquote : c ≠ '"')
    (h : rest <+: (number (c :: cs)).2) : (number (c :: cs)).1.Leads rest := by
  have hdecimals : (fraction ((c :: cs).dropWhile Decimal.isDigit)).1 ++ rest <+:
      (c :: cs).dropWhile Decimal.isDigit := by
    have hwhole := fraction_append ((c :: cs).dropWhile Decimal.isDigit)
    obtain ⟨more, hmore⟩ := h
    refine ⟨more, ?_⟩
    rw [List.append_assoc, hmore]
    exact hwhole
  obtain ⟨htake, hdrop⟩ := takeWhile_prefix hdecimals
  have hfraction := fraction_prefix h
  have hdigits : (c :: cs).takeWhile Decimal.isDigit = c :: cs.takeWhile Decimal.isDigit :=
    List.takeWhile_cons_of_pos hc
  refine ⟨c, cs.takeWhile Decimal.isDigit ++ (fraction ((c :: cs).dropWhile Decimal.isDigit)).1, ?_,
    ?_⟩
  · simp only [number, text, hdigits, List.cons_append]
  · unfold first
    rw [if_neg (by simp [hblank]), if_neg hquote, if_pos hc]
    rw [List.append_assoc, ← List.cons_append, ← hdigits]
    simp only [number, htake, hdrop, hfraction]

theorem leads_word (hc : isLetter c = true) (hblank : isBlank c = false) (hquote : c ≠ '"')
    (h : rest <+: (word (c :: cs)).2) : (word (c :: cs)).1.Leads rest := by
  obtain ⟨htake, hdrop⟩ := takeWhile_prefix h
  have hletters : (c :: cs).takeWhile isWordChar = c :: cs.takeWhile isWordChar :=
    List.takeWhile_cons_of_pos (isWordChar_of_isLetter hc)
  refine ⟨c, cs.takeWhile isWordChar, hletters, ?_⟩
  unfold first
  rw [if_neg (by simp [hblank]), if_neg hquote, if_neg (by simp [not_isDigit_of_isLetter hc]),
    if_pos hc, ← List.cons_append, ← hletters]
  simp only [word, htake, hdrop]

theorem first_slash (cs : List Char) : first '/' cs = slash cs := rfl

theorem leads_slash (h : rest <+: (slash cs).2) : (slash cs).1.Leads rest := by
  by_cases hopen : ['/'] <+: cs
  · obtain ⟨body, rfl⟩ := hopen
    obtain ⟨htake, hdrop⟩ := takeWhile_prefix (p := (· != '\n')) h
    refine ⟨'/', '/' :: body.takeWhile (· != '\n'), rfl, ?_⟩
    rw [first_slash]
    have htext : ('/' :: body).takeWhile (· != '\n') = '/' :: body.takeWhile (· != '\n') := rfl
    rw [List.singleton_append, htext, List.cons_append] at htake hdrop
    simp only [slash, List.cons_append, htake, hdrop]
    rfl
  · have bare : ∀ {text : List Char}, ¬ ['/'] <+: text → slash text = (.token .slash ['/'], text) := by
      intro text hnone
      unfold slash
      split
      · simp at hnone
      · rfl
    rw [bare hopen] at h ⊢
    refine ⟨'/', [], rfl, ?_⟩
    rw [first_slash, List.nil_append]
    exact bare fun hrest => hopen (hrest.trans h)

theorem leads_symbol (hsymbol : ∀ more, first c more = symbol c more)
    (h : rest <+: (symbol c cs).2) : (symbol c cs).1.Leads rest := by
  cases hsingle : single? c with
  | some kind =>
      simp only [symbol, hsingle] at h ⊢
      refine ⟨c, [], rfl, ?_⟩
      rw [List.nil_append, hsymbol]
      simp only [symbol, hsingle]
  | none =>
      cases hextensible : extensible? c with
      | none =>
          simp only [symbol, hsingle, hextensible] at h ⊢
          refine ⟨c, [], rfl, ?_⟩
          rw [List.nil_append, hsymbol]
          simp only [symbol, hsingle, hextensible]
      | some kinds =>
          obtain ⟨extended, alone⟩ := kinds
          have bare : ∀ {text : List Char}, ¬ ['='] <+: text →
              symbol c text = (.token alone [c], text) := by
            intro text hnone
            unfold symbol
            split <;> simp_all
          by_cases hequal : ['='] <+: cs
          · obtain ⟨more, rfl⟩ := hequal
            simp only [symbol, hsingle, hextensible, List.singleton_append] at h ⊢
            refine ⟨c, ['='], rfl, ?_⟩
            rw [List.singleton_append, hsymbol]
            simp only [symbol, hsingle, hextensible]
          · rw [bare hequal] at h ⊢
            refine ⟨c, [], rfl, ?_⟩
            rw [List.nil_append, hsymbol]
            exact bare fun hrest => hequal (hrest.trans h)

theorem leads_first (hclosed : (first c cs).1.isUnclosed = false) (h : rest <+: (first c cs).2) :
    (first c cs).1.Leads rest := by
  by_cases hblank : isBlank c = true
  · have hfirst : ∀ more, first c more = (.blank c, more) := fun more => if_pos hblank
    rw [hfirst]
    exact ⟨c, [], rfl, hfirst rest⟩
  by_cases hquote : c = '"'
  · subst hquote
    exact leads_string hclosed h
  by_cases hdigit : Decimal.isDigit c = true
  · unfold first at h ⊢
    rw [if_neg hblank, if_neg hquote, if_pos hdigit] at h ⊢
    exact leads_number hdigit (Bool.eq_false_iff.mpr hblank) hquote h
  by_cases hletter : isLetter c = true
  · unfold first at h ⊢
    rw [if_neg hblank, if_neg hquote, if_neg hdigit, if_pos hletter] at h ⊢
    exact leads_word hletter (Bool.eq_false_iff.mpr hblank) hquote h
  by_cases hslash : c = '/'
  · subst hslash
    exact leads_slash h
  have hsymbol : ∀ more, first c more = symbol c more := by
    intro more
    unfold first
    rw [if_neg hblank, if_neg hquote, if_neg hdigit, if_neg hletter, if_neg hslash]
  rw [hsymbol] at h ⊢
  exact leads_symbol hsymbol h

/-! ## Several pieces -/

def textOf (pieces : List Piece) : List Char :=
  pieces.flatMap text

theorem textOf_append (before after : List Piece) :
    textOf (before ++ after) = textOf before ++ textOf after :=
  List.flatMap_append

theorem textOf_split (source : List Char) : textOf (split source) = source := by
  induction hn : source.length using Nat.strong_induction_on generalizing source with
  | _ n ih =>
      cases source with
      | nil => rfl
      | cons c cs =>
          have hlength := length_first_le c cs
          have hrest := ih (first c cs).2.length (by rw [← hn, List.length_cons]; omega) _ rfl
          rw [split_cons, textOf, List.flatMap_cons, ← textOf, hrest, text_first]

theorem split_parts {source : List Char} {before after : List Piece}
    (h : split source = before ++ after) :
    split (textOf after) = after ∧
      ((∀ piece ∈ before, piece.isUnclosed = false) → split (textOf before) = before) := by
  induction before generalizing source with
  | nil =>
      rw [List.nil_append] at h
      exact ⟨by rw [← h, textOf_split], fun _ => rfl⟩
  | cons piece before ih =>
      cases source with
      | nil => cases h
      | cons c cs =>
          rw [split_cons, List.cons_append] at h
          obtain ⟨rfl, hrest⟩ := List.cons.inj h
          obtain ⟨hafter, hbefore⟩ := ih hrest
          refine ⟨hafter, fun hclosed => ?_⟩
          -- What is left of the rest begins like it, so the first piece ends where it did.
          have hpre : textOf before <+: (first c cs).2 := by
            refine ⟨textOf after, ?_⟩
            rw [← textOf_append, ← hrest, textOf_split]
          have hleads := leads_first (hclosed _ List.mem_cons_self) hpre
          rw [textOf, List.flatMap_cons, ← textOf, hleads.split,
            hbefore fun other hother => hclosed other (List.mem_cons_of_mem _ hother)]

theorem first_unclosed (h : (first c cs).1.isUnclosed = true) :
    '"' ∉ cs ∧ first c cs = (.unclosed ('"' :: cs), []) := by
  unfold first at h ⊢
  split at h
  · cases h
  split at h
  · next hblank hquote =>
      rw [if_neg hblank, if_pos hquote]
      unfold string at h ⊢
      split at h
      · next hopen =>
          refine ⟨fun hmem => ?_, rfl⟩
          simpa using List.dropWhile_eq_nil_iff.mp hopen '"' hmem
      · cases h
  split at h
  · cases h
  split at h
  · cases h
  split at h
  · unfold slash at h
    split at h <;> cases h
  · unfold symbol at h
    split at h <;> cases h

theorem closed_of_split {source : List Char} {before after : List Piece} {piece : Piece}
    (h : split source = before ++ piece :: after) : ∀ other ∈ before, other.isUnclosed = false := by
  induction before generalizing source with
  | nil => exact nofun
  | cons other before ih =>
      cases source with
      | nil => cases h
      | cons c cs =>
          rw [split_cons, List.cons_append] at h
          obtain ⟨rfl, hrest⟩ := List.cons.inj h
          intro one hone
          rcases List.mem_cons.mp hone with rfl | hone
          · rw [← Bool.not_eq_true]
            intro hunclosed
            rw [(first_unclosed hunclosed).2] at hrest
            cases before <;> cases hrest
          · exact ih hrest one hone

theorem unclosed_of_split {source text : List Char} {before after : List Piece}
    (h : split source = before ++ .unclosed text :: after) :
    (∃ body, '"' ∉ body ∧ text = '"' :: body) ∧ after = [] := by
  have hend : split (textOf (.unclosed text :: after)) = .unclosed text :: after :=
    (split_parts h).1
  cases hsource : textOf (.unclosed text :: after) with
  | nil =>
      rw [hsource] at hend
      cases hend
  | cons c cs =>
      rw [hsource, split_cons] at hend
      obtain ⟨hpiece, hafter⟩ := List.cons.inj hend
      have hunclosed : (first c cs).1.isUnclosed = true := by
        rw [hpiece]
        rfl
      obtain ⟨hbody, hfirst⟩ := first_unclosed hunclosed
      rw [hfirst] at hpiece hafter
      exact ⟨⟨cs, hbody, (unclosed.inj hpiece).symm⟩, hafter.symm⟩

end Lox.Piece
