import Lox.Proofs.Decimal.Layout
import Lox.Proofs.Decimal.Representation
import Lox.Proofs.Decimal.Shortest
import Lox.Proofs.Token.Front

/-!
# Numbers read back as they are shown

The text that `print` shows for a finite number denotes a decimal whose nearest double is that
number, so no two numbers are shown alike.  Where the text has no exponent, it is one token.
-/

namespace Lox

open Decimal

/-! ## A numeral is one token -/

theorem IsDigits.ne_lineBreak {text : List Char} (h : ∀ c ∈ text, isDigit c = true) : '\n' ∉ text :=
  fun hmem => absurd (h _ hmem) (by decide)

theorem IsNumeral.lineBreaks {text : List Char} (h : IsNumeral text) : Scan.lineBreaks text = 0 := by
  refine List.count_eq_zero.mpr ?_
  cases h with
  | whole hdigits => exact IsDigits.ne_lineBreak hdigits.2
  | fraction hdigits hdecimals =>
      intro hmem
      rcases List.mem_append.mp hmem with hmem | hmem
      · exact IsDigits.ne_lineBreak hdigits.2 hmem
      · rcases List.mem_cons.mp hmem with hpoint | hmem
        · cases hpoint
        · exact IsDigits.ne_lineBreak hdecimals.2 hmem

theorem IsNumeral.number_eq {text : List Char} (h : IsNumeral text) :
    Piece.number text = (.token .number text, []) := by
  unfold Piece.number
  cases h with
  | whole hdigits =>
      obtain ⟨htake, hdrop⟩ := span_digits hdigits.2
      rw [htake, hdrop]
      simp [Piece.fraction]
  | @fraction digits decimals hdigits hdecimals =>
      obtain ⟨htake, hdrop⟩ := span_digits_stop hdigits.2 isDigit_point decimals
      rw [htake, hdrop]
      obtain ⟨hne, hall⟩ := hdecimals
      cases decimals with
      | nil => exact absurd rfl hne
      | cons d more =>
          obtain ⟨htake', hdrop'⟩ := span_digits fun c hc => hall c (List.mem_cons_of_mem d hc)
          simp [Piece.fraction, hall d List.mem_cons_self, htake', hdrop']

theorem IsNumeral.split_eq {text : List Char} (h : IsNumeral text) :
    Piece.split text = [.token .number text] := by
  have hnumber := h.number_eq
  cases text with
  | nil => exact absurd rfl (Lexeme.number h).ne_nil
  | cons c cs =>
      have hdigit := h.head
      have hblank : ¬ Piece.isBlank c = true := fun hblank => by
        rw [isDigit_iff] at hdigit
        rcases List.mem_cons.mp (Piece.isBlank_iff.mp hblank) with rfl | hblank
        · exact absurd hdigit (by decide)
        · simp only [List.mem_cons, List.not_mem_nil, or_false] at hblank
          rcases hblank with rfl | rfl | rfl <;> exact absurd hdigit (by decide)
      have hquote : c ≠ '"' := fun hquote => by
        rw [hquote, not_isDigit_quote] at hdigit
        cases hdigit
      have hfirst : Piece.first c cs = (.token .number (c :: cs), []) := by
        unfold Piece.first
        rw [if_neg hblank, if_neg hquote, if_pos hdigit, hnumber]
      rw [Piece.split_cons, hfirst]
      rfl

/-- A numeral is scanned as one number and nothing else. -/
theorem IsNumeral.scan {text : List Char} (h : IsNumeral text) :
    Scan.ofSource (String.ofList text) =
      ⟨[⟨.number, String.ofList text, .number (readPositional text), 1⟩], .atEnd 1, []⟩ := by
  unfold Scan.ofSource
  rw [String.toList_ofList, h.split_eq, Scan.ofPieces, Piece.text, h.lineBreaks]
  rfl

/-! ## Reading a numeral -/

theorem IsNumeral.reads {text : List Char} (h : IsNumeral text) :
    ∃ d, read? text = some d ∧ readPositional text = d.toFloat false := by
  unfold readPositional
  cases h with
  | whole hdigits =>
      obtain ⟨htake, hdrop⟩ := span_digits hdigits.2
      exact ⟨_, read?_digits hdigits, by rw [htake, hdrop]; rfl⟩
  | @fraction digits decimals hdigits hdecimals =>
      obtain ⟨htake, hdrop⟩ := span_digits_stop hdigits.2 isDigit_point decimals
      exact ⟨_, read?_fraction hdigits hdecimals.2, by rw [htake, hdrop]; rfl⟩

theorem head_of_read? {c : Char} {cs : List Char} {d : Decimal} (h : read? (c :: cs) = some d) :
    isDigit c = true ∨ c = '.' := by
  by_contra hother
  rw [not_or, Bool.not_eq_true] at hother
  obtain ⟨hdigit, hpoint⟩ := hother
  have htake : (c :: cs).takeWhile isDigit = [] := List.takeWhile_cons_of_neg (by simp [hdigit])
  have hdrop : (c :: cs).dropWhile isDigit = c :: cs := List.dropWhile_cons_of_neg (by simp [hdigit])
  simp [read?, htake, hdrop, hpoint] at h

namespace Number

/-- A text that reads as a decimal, with its sign, denotes the double nearest to it. -/
theorem ofText?_signed {text : List Char} {d : Decimal} (negative : Bool) (h : read? text = some d) :
    ofText? (signed negative text) = some (d.toFloat negative) := by
  have hdouble : d.bounded.toFloat negative = d.toFloat negative := by
    rw [toFloat, toFloat, nearest_bounded]
  have hhead : ∀ c ∈ ['-', '+', 'n', 'i'], ∀ cs, text ≠ c :: cs := by
    rintro c hc cs rfl
    simp only [List.mem_cons, List.not_mem_nil, or_false] at hc
    rcases head_of_read? h with hdigit | rfl
    · rcases hc with rfl | rfl | rfl | rfl <;> exact absurd hdigit (by decide)
    · simp at hc
  have hnan : text ≠ ['n', 'a', 'n'] := hhead 'n' (by decide) _
  have hinf : text ≠ ['i', 'n', 'f'] := hhead 'i' (by decide) _
  unfold ofText? signed
  dsimp only
  rw [String.toList_ofList]
  cases negative with
  | true => simp only [if_true, if_neg hnan, if_neg hinf, h, Option.map_some, hdouble]
  | false =>
      simp only [Bool.false_eq_true, if_false]
      split
      · next rest => exact absurd rfl (hhead '-' (by decide) rest)
      · next rest => exact absurd rfl (hhead '+' (by decide) rest)
      · simp only [if_neg hnan, if_neg hinf, h, Option.map_some, hdouble]

/-! ## Points and zeros -/

theorem withoutPointZero_append (text : List Char) : withoutPointZero (text ++ ['.', '0']) = text := by
  simp [withoutPointZero]

theorem withoutPointZero_of_not {text : List Char} (h : ¬ ['.', '0'] <:+ text) :
    withoutPointZero text = text := by
  unfold withoutPointZero
  split
  · next rest hreverse =>
      refine absurd ?_ h
      rw [← List.reverse_prefix, hreverse]
      exact ⟨rest, rfl⟩
  · rfl

theorem withoutPointZero_fraction {whole fraction : List Char} (hwhole : IsDigits whole)
    (hfraction : IsDigits fraction) :
    IsNumeral (withoutPointZero (whole ++ '.' :: fraction)) ∧
      Reads (withoutPointZero (whole ++ '.' :: fraction)) (ofDigits whole fraction).value := by
  rcases eq_or_ne fraction ['0'] with rfl | hne
  · rw [withoutPointZero_append]
    refine ⟨.whole hwhole, _, read?_digits hwhole, ?_⟩
    have hzero : digitsValue ['0'] = 0 := digitsValue_zeros 1
    rw [value_ofDigits, value_ofDigits, digitsValue_append, digitsValue_append, hzero]
    simp [digitsValue]
  · rw [withoutPointZero_of_not]
    · exact ⟨.fraction hwhole hfraction, _, read?_fraction hwhole hfraction.2, rfl⟩
    · intro hsuffix
      have hlength : ['.', '0'].length ≤ ('.' :: fraction).length :=
        Nat.succ_le_succ (List.length_pos_iff.mpr hfraction.1)
      rcases List.suffix_cons_iff.mp
        (List.suffix_of_suffix_length_le hsuffix (List.suffix_append whole _) hlength) with heq | hinner
      · exact hne (List.cons.inj heq).2.symm
      · have hpoint := hfraction.2 '.' (hinner.subset List.mem_cons_self)
        rw [isDigit_point] at hpoint
        cases hpoint

theorem withoutPointZero_scientific (layout : Layout) (s : Significand) :
    withoutPointZero (s.scientific layout) = s.scientific layout := by
  refine withoutPointZero_of_not fun hsuffix => ?_
  have hdigits := isDigits_digitsOf s.leading.natAbs
  obtain ⟨front, exponent, htext, hexponent⟩ : ∃ front exponent, s.scientific layout =
      front ++ (if s.leading < 0 then '-' else '+') :: exponent ∧ IsDigits exponent := by
    refine ⟨s.digits.take 1 ++ (if (s.digits.drop 1).isEmpty then [] else '.' :: s.digits.drop 1) ++ ['e'],
      zeros (layout.exponentDigits - (digitsOf s.leading.natAbs).length) ++
      digitsOf s.leading.natAbs, ?_, ⟨by simp [hdigits.1], allDigits_append (allDigits_zeros _) hdigits.2⟩⟩
    simp [Significand.scientific]
  rw [htext] at hsuffix
  have hlength : ['.', '0'].length ≤ ((if s.leading < 0 then '-' else '+') :: exponent).length :=
    Nat.succ_le_succ (List.length_pos_iff.mpr hexponent.1)
  have hend := List.suffix_of_suffix_length_le hsuffix (List.suffix_append front _) hlength
  rcases List.mem_cons.mp (hend.subset List.mem_cons_self) with hsign | hpoint
  · split_ifs at hsign <;> cases hsign
  · have hpoint := hexponent.2 '.' hpoint
    rw [isDigit_point] at hpoint
    cases hpoint

/-! ## The text of a finite number -/

variable {word : Nat}

def unsigned (word : Nat) : List Char :=
  match whole? word with
  | some n => digitsOf n
  | none => withoutPointZero (magnitudeText word)

theorem display_of_finite {x : Float} (h : Decimal.word x < infinityWord) :
    display x = signed (isNegative x) (unsigned (Decimal.word x)) := by
  unfold display
  rw [if_neg (Nat.lt_asymm h), if_neg (Nat.ne_of_lt h)]
  rfl

theorem whole?_eq_some {n : Nat} (h : whole? word = some n) : magnitude word = n := by
  have hone : ∀ k, 0 < Nat.pow 2 k := Nat.two_pow_pos
  replace hone := hone 1074
  unfold whole? at h
  dsimp only at h
  rw [magnitude_eq]
  generalize Nat.pow 2 1074 = one at h hone ⊢
  split_ifs at h with hwhole
  obtain rfl := Option.some.inj h
  rw [Nat.cast_div (Nat.dvd_of_mod_eq_zero hwhole.2.1) (Nat.cast_ne_zero.mpr hone.ne')]

theorem shortest_pos (hpos : 0 < word) : 0 < (shortest word).coefficient := by
  obtain ⟨leading, -, -, hlow, -⟩ := shortest_bounds hpos
  by_contra hzero
  have hpower : (0 : ℚ) < 10 ^ leading := by positivity
  rw [value, Nat.eq_zero_of_not_pos hzero, Nat.cast_zero, zero_mul] at hlow
  exact absurd hlow (not_le.mpr hpower)

/-- What is shown reads as a decimal whose nearest double is the number. -/
theorem unsigned_reads (h : word < infinityWord) :
    ∃ d, read? (unsigned word) = some d ∧ d.nearest = word := by
  unfold unsigned
  cases hwhole : whole? word with
  | some n =>
      refine ⟨_, read?_digits (isDigits_digitsOf n), nearest_of_value h.le ?_⟩
      rw [whole?_eq_some hwhole, value_ofDigits, List.append_nil, digitsValue_digitsOf]
      simp
  | none =>
      unfold magnitudeText
      split_ifs with hzero
      · refine ⟨⟨0, 0⟩, rfl, nearest_of_value h.le ?_⟩
        rw [hzero, magnitude_zero, value, Nat.cast_zero, zero_mul]
      · have hpos : 0 < word := Nat.pos_of_ne_zero hzero
        obtain ⟨hproper, hvalue⟩ := significand_proper (shortest_pos hpos)
        suffices hreads : Reads (withoutPointZero (layout.write (shortest word).significand))
            (shortest word).significand.value by
          obtain ⟨d, hread, hd⟩ := hreads
          refine ⟨d, hread, ?_⟩
          rw [nearest_congr (hd.trans hvalue), shortest_nearest h.le]
        unfold Layout.write
        split_ifs
        · obtain ⟨whole, fraction, htext, hdigits, hdecimals, hpositional⟩ :=
            Significand.positional_reads hproper
          rw [htext, ← hpositional]
          exact (withoutPointZero_fraction hdigits hdecimals).2
        · rw [withoutPointZero_scientific]
          exact Significand.scientific_reads layout hproper

/-! ## Numbers without an exponent -/

/-- Only numbers below `2 ^ 52` have a fraction. -/
theorem lt_of_whole?_eq_none (h : whole? word = none) (hpos : 0 < word)
    (hbound : magnitude word < wholeBound) : word < 1075 * 2 ^ 52 := by
  by_contra hlarge
  have hplace : 2 ^ 52 ≤ word := by omega
  have hsteps := steps_of_ge hplace
  have hnonzero : steps word ≠ 0 := by
    have := steps_strictMono hpos
    omega
  have hdvd : ∀ k ≤ word / 2 ^ 52 - 1, Nat.pow 2 k ∣ steps word := by
    intro k hk
    rw [hsteps]
    exact (pow_dvd_pow 2 hk).mul_left _
  have hone : ∀ k, 0 < Nat.pow 2 k := Nat.two_pow_pos
  rw [magnitude_eq] at hbound
  unfold whole? at h
  dsimp only at h
  generalize hk : 1074 = k at h hbound
  replace hdvd := hdvd k (by omega)
  replace hone := hone k
  generalize Nat.pow 2 k = one at h hone hdvd hbound
  rw [div_lt_iff₀ (Nat.cast_pos.mpr hone)] at hbound
  have hbound' : steps word < wholeBound * one := mod_cast hbound
  rw [if_pos ⟨hnonzero, Nat.mod_eq_zero_of_dvd hdvd, (Nat.div_lt_iff_lt_mul hone).mpr hbound'⟩] at h
  cases h

theorem magnitude_lt_of_lt (h : word < 1075 * 2 ^ 52) : magnitude word < 2 ^ 52 := by
  have hplace : 1075 * 2 ^ 52 = 1074 * 2 ^ 52 + 2 ^ 52 := by norm_num
  have hmono := magnitude_strictMono h
  rw [hplace, magnitude.eq_1 (_ + _), steps_place (by decide) (.inr (Nat.le_refl _))] at hmono
  exact lt_of_lt_of_eq hmono (cast_quotient rfl)

theorem significand_bounds {d : Decimal} (h : 0 < d.coefficient) :
    (10 : ℚ) ^ d.significand.leading ≤ d.value ∧ d.value < 10 ^ (d.significand.leading + 1) := by
  obtain ⟨hlow, hhigh⟩ := digitsOf_bounds h
  have hlength : 0 < (digitsOf d.coefficient).length := Nat.length_toDigits_pos
  unfold significand value
  dsimp only
  generalize (digitsOf d.coefficient).length = length at hlow hhigh hlength ⊢
  have hten : (10 : ℚ) ≠ 0 := by norm_num
  have hfrom : d.exponent + (length : Int) - 1 = (length - 1 : Nat) + d.exponent := by omega
  have hto : d.exponent + (length : Int) - 1 + 1 = length + d.exponent := by omega
  rw [hto, hfrom, zpow_add₀ hten, zpow_add₀ hten, zpow_natCast, zpow_natCast]
  have hunit : (0 : ℚ) < 10 ^ d.exponent := by positivity
  exact ⟨mul_le_mul_of_nonneg_right (mod_cast hlow) hunit.le,
    mul_lt_mul_of_pos_right (mod_cast hhigh) hunit⟩

/-- Doubles from one ten-thousandth up to those that are all whole have few digits before the point. -/
theorem leading_shortest (hword : word < infinityWord) (hpos : 0 < word)
    (hlow : (1 : ℚ) / 10 ^ 4 ≤ magnitude word) (hpart : word < 1075 * 2 ^ 52) :
    -4 ≤ (shortest word).significand.leading ∧ (shortest word).significand.leading < 16 := by
  obtain ⟨leading, hfrom, hto, hdlow, hdhigh⟩ := shortest_bounds hpos
  obtain ⟨hslow, hshigh⟩ := significand_bounds (shortest_pos hpos)
  have hten : (1 : ℚ) < 10 := by norm_num
  constructor
  · have hfirst : (10 : ℚ) ^ (-4 : Int) < 10 ^ (leading + 1) := by
      refine lt_of_le_of_lt ?_ hto
      norm_num at hlow ⊢
      exact hlow
    have hsecond := (zpow_lt_zpow_iff_right₀ hten).mp (hdlow.trans_lt hshigh)
    have hfirst := (zpow_lt_zpow_iff_right₀ hten).mp hfirst
    omega
  · by_contra hbeyond
    have hlast : (10 : ℚ) ^ leading < 10 ^ (16 : Int) := by
      refine lt_of_le_of_lt hfrom ((magnitude_lt_of_lt hpart).trans ?_)
      norm_num
    have hlast : leading < 16 := (zpow_lt_zpow_iff_right₀ hten).mp hlast
    have hreach : (10 : ℚ) ^ (16 : Int) ≤ (shortest word).value :=
      le_trans (zpow_le_zpow_right₀ hten.le (Int.not_lt.mp hbeyond)) hslow
    have hcap : (shortest word).value ≤ (10 : ℚ) ^ (16 : Int) :=
      hdhigh.trans (zpow_le_zpow_right₀ hten.le hlast)
    -- The only number left is ten to the sixteenth, and the double nearest to it is whole.
    have hten16 : (shortest word).value = (⟨1, 16⟩ : Decimal).value := by
      rw [le_antisymm hcap hreach, value, Nat.cast_one, one_mul]
    have hlarge : 1075 * 2 ^ 52 ≤ (⟨1, 16⟩ : Decimal).nearest := by decide +kernel
    rw [← nearest_congr hten16, shortest_nearest hword.le] at hlarge
    omega

/-- From one ten-thousandth on and below the bound of whole numbers there is no exponent. -/
theorem unsigned_numeral (hword : word < infinityWord) (hlow : (1 : ℚ) / 10 ^ 4 ≤ magnitude word)
    (hhigh : magnitude word < wholeBound) : IsNumeral (unsigned word) := by
  unfold unsigned
  cases hwhole : whole? word with
  | some n => exact .whole (isDigits_digitsOf n)
  | none =>
      have hpos : 0 < word := by
        rcases Nat.eq_zero_or_pos word with rfl | hpos
        · rw [magnitude_zero] at hlow
          norm_num at hlow
        · exact hpos
      have hpart := lt_of_whole?_eq_none hwhole hpos hhigh
      have hproper := (significand_proper (shortest_pos hpos)).1
      obtain ⟨hleading, hbelow⟩ := leading_shortest hword hpos hlow hpart
      unfold magnitudeText Layout.write
      rw [if_neg hpos.ne', if_pos ⟨hleading, hbelow⟩]
      obtain ⟨whole, fraction, htext, hdigits, hdecimals, -⟩ := Significand.positional_reads hproper
      rw [htext]
      exact (withoutPointZero_fraction hdigits hdecimals).1

/-! ## Doubles -/

theorem unsigned_zero : isNegative 0 = false ∧ unsigned (Decimal.word 0) = ['0'] := by
  decide

theorem magnitude_bounds {num den : Nat} (hnum : num * Nat.pow 2 1074 ≤ steps word * den) (hden : 0 < den) :
    (num / den : ℚ) ≤ magnitude word := by
  have hone : ∀ k, 0 < Nat.pow 2 k := Nat.two_pow_pos
  replace hone := hone 1074
  rw [magnitude_eq]
  generalize Nat.pow 2 1074 = one at hnum hone ⊢
  rw [div_le_div_iff₀ (Nat.cast_pos.mpr hden) (Nat.cast_pos.mpr hone)]
  exact_mod_cast hnum

/-- The double nearest to one ten-thousandth lies above it, and the bound of whole numbers is one. -/
theorem numeral_range {x : Float} (hfinite : Decimal.word x < infinityWord) (hlow : 0.0001 ≤ x)
    (hhigh : x < 1e21) :
    isNegative x = false ∧ (1 : ℚ) / 10 ^ 4 ≤ magnitude (Decimal.word x) ∧
      magnitude (Decimal.word x) < wholeBound := by
  have hleast : isNegative 0.0001 = false ∧ 0 < Decimal.word 0.0001 ∧
      Decimal.word 0.0001 < infinityWord ∧
      1 * Nat.pow 2 1074 ≤ steps (Decimal.word 0.0001) * 10 ^ 4 := by decide +kernel
  have hbound : isNegative 1e21 = false ∧ Decimal.word 1e21 < infinityWord ∧
      steps (Decimal.word 1e21) = wholeBound * Nat.pow 2 1074 := by decide +kernel
  have hpositive := isNegative_of_le hleast.1 hleast.2.1 hleast.2.2.1 hfinite hlow
  have hfrom := (le_iff_word hleast.1 hpositive hleast.2.2.1 hfinite).mp hlow
  have hto := (lt_iff_word hpositive hbound.1 hfinite hbound.2.1).mp hhigh
  refine ⟨hpositive, le_trans ?_ (magnitude_strictMono.monotone hfrom), lt_of_lt_of_eq
    (magnitude_strictMono hto) ?_⟩
  · have hquotient := magnitude_bounds hleast.2.2.2 (by decide)
    exact_mod_cast hquotient
  · have hone : ∀ k, 0 < Nat.pow 2 k := Nat.two_pow_pos
    replace hone := hone 1074
    rw [magnitude_eq, hbound.2.2, Nat.cast_mul, mul_div_cancel_right₀ _ (Nat.cast_ne_zero.mpr hone.ne')]

end Number

/--
The text that is shown for a finite number is a sign and a decimal.  The number is the double that is
nearest to it, and it is what the text denotes.  So no two finite numbers are shown alike.  Positive
zero, and numbers from one ten-thousandth on and below the bound of whole numbers, are shown by a text
that is one number token and nothing else.
-/
theorem Number.display_reads_back :
    (∀ x : Float, x.isFinite = true →
      (∃ text d, Number.display x = Number.signed (isNegative x) text ∧ read? text = some d ∧
        Nearest d.value (Decimal.word x)) ∧
      Number.ofText? (Number.display x) = some x) ∧
    (∀ x y : Float, x.isFinite = true → y.isFinite = true → Number.display x = Number.display y → x = y) ∧
    (∀ x : Float, x.isFinite = true → x = 0 ∨ 0.0001 ≤ x ∧ x < 1e21 →
      Scan.ofSource (Number.display x) =
        ⟨[⟨.number, Number.display x, .number x, 1⟩], .atEnd 1, []⟩) := by
  have hreads : ∀ x : Float, x.isFinite = true →
      ∃ d, read? (Number.unsigned (Decimal.word x)) = some d ∧ d.nearest = Decimal.word x :=
    fun x hx => Number.unsigned_reads ((isFinite_iff x).mp hx)
  have hback : ∀ x : Float, x.isFinite = true → Number.ofText? (Number.display x) = some x := by
    intro x hx
    obtain ⟨d, hread, hnearest⟩ := hreads x hx
    rw [Number.display_of_finite ((isFinite_iff x).mp hx), Number.ofText?_signed _ hread, toFloat, hnearest,
      ofWord_word]
  refine ⟨fun x hx => ⟨?_, hback x hx⟩, fun x y hx hy heq => ?_, fun x hx hrange => ?_⟩
  · obtain ⟨d, hread, hnearest⟩ := hreads x hx
    exact ⟨_, d, Number.display_of_finite ((isFinite_iff x).mp hx), hread, hnearest ▸ d.nearest_spec⟩
  · exact Option.some.inj ((hback x hx).symm.trans ((congrArg _ heq).trans (hback y hy)))
  · have hfinite := (isFinite_iff x).mp hx
    have hnumeral : isNegative x = false ∧ IsNumeral (Number.unsigned (Decimal.word x)) := by
      rcases hrange with rfl | ⟨hlow, hhigh⟩
      · rw [Number.unsigned_zero.2]
        exact ⟨Number.unsigned_zero.1, .whole (isDigits_digitsOf 0)⟩
      · obtain ⟨hpositive, hfrom, hto⟩ := Number.numeral_range hfinite hlow hhigh
        exact ⟨hpositive, Number.unsigned_numeral hfinite hfrom hto⟩
    obtain ⟨hpositive, hshape⟩ := hnumeral
    have hdisplay : Number.display x = String.ofList (Number.unsigned (Decimal.word x)) := by
      rw [Number.display_of_finite hfinite, hpositive]
      rfl
    have hliteral : readPositional (Number.unsigned (Decimal.word x)) = x := by
      obtain ⟨d, hread, hnearest⟩ := hreads x hx
      obtain ⟨e, hread', hvalue⟩ := hshape.reads
      obtain rfl := Option.some.inj (hread.symm.trans hread')
      rw [hvalue, toFloat, hnearest, ← hpositive, ofWord_word]
    rw [hdisplay, hshape.scan, hliteral]

theorem Number.display_reads_back_tenth :
    (0.1 : Float).isFinite = true ∧ (2.5 : Float).isFinite = true ∧
      (0.0001 ≤ (0.1 : Float) ∧ (0.1 : Float) < 1e21) ∧
      Number.ofText? (Number.display 0.1) = some 0.1 ∧
      (Number.display 0.1 = Number.display 2.5 → (0.1 : Float) = 2.5) ∧
      Scan.ofSource (Number.display 0.1) =
        ⟨[⟨.number, Number.display 0.1, .number 0.1, 1⟩], .atEnd 1, []⟩ := by
  have htenth : (0.1 : Float).isFinite = true ∧ (0.0001 ≤ (0.1 : Float) ∧ (0.1 : Float) < 1e21) := by
    decide
  have hother : (2.5 : Float).isFinite = true := by decide
  exact ⟨htenth.1, hother, htenth.2, (Number.display_reads_back.1 0.1 htenth.1).2,
    Number.display_reads_back.2.1 0.1 2.5 htenth.1 hother,
    Number.display_reads_back.2.2 0.1 htenth.1 (.inr htenth.2)⟩

end Lox
