import Lox.Number
import Lox.Proofs.Decimal.Nearest
import Lox.Proofs.Token.Lexeme

/-!
# Reading decimals

A decimal that is written in either layout reads as the number that it is, with or without the point
and zero at the end of a whole number.
-/

namespace Lox.Decimal

/-! ## Digits -/

def AllDigits (text : List Char) : Prop :=
  ∀ c ∈ text, isDigit c = true

theorem isDigit_of_mem_digitsOf {n : Nat} {c : Char} (h : c ∈ digitsOf n) : isDigit c = true := by
  have hdigit := Nat.isDigit_of_mem_toDigits (by decide) (by decide) h
  rw [Char.isDigit_iff_toNat] at hdigit
  exact isDigit_iff.mpr hdigit

theorem isDigits_digitsOf (n : Nat) : IsDigits (digitsOf n) :=
  ⟨Nat.toDigits_ne_nil, fun _ => isDigit_of_mem_digitsOf⟩

theorem digitsValue_eq (digits : List Char) : digitsValue digits = Nat.ofDigitChars 10 digits 0 :=
  Nat.ofDigitChars_eq_foldl.symm

theorem digitsValue_append (front back : List Char) :
    digitsValue (front ++ back) = digitsValue front * 10 ^ back.length + digitsValue back := by
  rw [digitsValue_eq, digitsValue_eq, digitsValue_eq, Nat.ofDigitChars_append,
    Nat.ofDigitChars_eq_ofDigitChars_zero, Nat.mul_comm]

theorem digitsValue_zeros (n : Nat) : digitsValue (zeros n) = 0 := by
  rw [digitsValue_eq, zeros, Nat.ofDigitChars_replicate_zero, Nat.mul_zero]

@[simp] theorem digitsValue_digitsOf (n : Nat) : digitsValue (digitsOf n) = n := by
  rw [digitsValue_eq]
  exact Nat.ofDigitChars_ten_toDigits

theorem length_zeros (n : Nat) : (zeros n).length = n :=
  List.length_replicate

theorem allDigits_zeros (n : Nat) : AllDigits (zeros n) := by
  intro c hc
  rw [List.eq_of_mem_replicate hc]
  rfl

theorem allDigits_append {front back : List Char} (hfront : AllDigits front) (hback : AllDigits back) :
    AllDigits (front ++ back) := fun c hc => (List.mem_append.mp hc).elim (hfront c) (hback c)

/-! ## Texts and numbers -/

/-- The text reads as a decimal of the number `q`. -/
def Reads (text : List Char) (q : ℚ) : Prop :=
  ∃ d, read? text = some d ∧ d.value = q

theorem value_ofDigits (whole fraction : List Char) :
    (ofDigits whole fraction).value = digitsValue (whole ++ fraction) / 10 ^ fraction.length := by
  rw [value, ofDigits, zpow_neg, zpow_natCast, div_eq_mul_inv]

theorem isDigit_point : isDigit '.' = false := by decide

theorem isDigit_mark : isDigit 'e' = false := by decide

theorem span_digits {digits : List Char} (h : AllDigits digits) :
    digits.takeWhile isDigit = digits ∧ digits.dropWhile isDigit = [] :=
  ⟨List.takeWhile_eq_self_iff.mpr h, List.dropWhile_eq_nil_iff.mpr h⟩

theorem span_digits_stop {digits : List Char} {c : Char} (h : AllDigits digits)
    (hc : isDigit c = false) (rest : List Char) :
    (digits ++ c :: rest).takeWhile isDigit = digits ∧
      (digits ++ c :: rest).dropWhile isDigit = c :: rest :=
  takeWhile_of_stop h hc

theorem read?_digits {digits : List Char} (h : IsDigits digits) :
    read? digits = some (ofDigits digits []) := by
  obtain ⟨htake, hdrop⟩ := span_digits h.2
  unfold read?
  simp only [htake, hdrop, List.append_nil, if_neg h.1]

theorem read?_fraction {whole fraction : List Char} (hwhole : IsDigits whole)
    (hfraction : AllDigits fraction) :
    read? (whole ++ '.' :: fraction) = some (ofDigits whole fraction) := by
  obtain ⟨htake, hdrop⟩ := span_digits_stop hwhole.2 isDigit_point fraction
  obtain ⟨htake', hdrop'⟩ := span_digits hfraction
  unfold read?
  simp only [htake, hdrop, htake', hdrop', List.append_eq_nil_iff, hwhole.1, false_and, if_false]

theorem read?_scientific {whole fraction exponent : List Char} {shift : Int} (hwhole : IsDigits whole)
    (hfraction : AllDigits fraction) (hexponent : readExponent? exponent = some shift) :
    read? (whole ++ (if fraction.isEmpty then [] else '.' :: fraction) ++ 'e' :: exponent) =
      some ⟨digitsValue (whole ++ fraction), -(fraction.length : Int) + shift⟩ := by
  cases fraction with
  | nil =>
      obtain ⟨htake, hdrop⟩ := span_digits_stop hwhole.2 isDigit_mark exponent
      simp [read?, htake, hdrop, hwhole.1, hexponent, ofDigits]
  | cons d more =>
      have htext : whole ++ (if (d :: more).isEmpty then [] else '.' :: d :: more) ++ 'e' :: exponent =
          whole ++ '.' :: (d :: more ++ 'e' :: exponent) := by simp
      obtain ⟨htake, hdrop⟩ := span_digits_stop hwhole.2 isDigit_point
        (d :: more ++ 'e' :: exponent)
      obtain ⟨htake', hdrop'⟩ := span_digits_stop hfraction isDigit_mark exponent
      rw [htext]
      unfold read?
      simp only [htake, hdrop, htake', hdrop', List.append_eq_nil_iff, hwhole.1, false_and, if_false,
        true_or, if_true, hexponent, Option.map_some, ofDigits]

theorem readExponent?_signed {digits : List Char} {e : Int} (h : IsDigits digits)
    (hvalue : digitsValue digits = e.natAbs) :
    readExponent? ((if e < 0 then '-' else '+') :: digits) = some e := by
  have hall : digits ≠ [] ∧ digits.all isDigit = true := ⟨h.1, List.all_eq_true.mpr h.2⟩
  unfold readExponent?
  split_ifs with hsign
  · simp only [if_pos hall, hvalue]
    show some (-(e.natAbs : Int)) = some e
    rw [Int.ofNat_natAbs_of_nonpos hsign.le, neg_neg]
  · simp only [if_pos hall, hvalue, Option.map_some, Int.ofNat_eq_natCast,
      Int.natAbs_of_nonneg (Int.not_lt.mp hsign)]

/-! ## Significands -/

namespace Significand

/-- The digits are digits, and there is no zero at their end. -/
structure Proper (s : Significand) : Prop where
  digits : IsDigits s.digits
  last : ¬ ['0'] <:+ s.digits

def value (s : Significand) : ℚ :=
  digitsValue s.digits * 10 ^ (s.leading + 1 - s.digits.length)

variable {s : Significand} {k : Nat}

theorem scientific_reads (layout : Layout) (h : s.Proper) : Reads (s.scientific layout) s.value := by
  obtain ⟨⟨hne, hall⟩, -⟩ := h
  cases hs : s.digits with
  | nil => exact absurd hs hne
  | cons d fraction =>
      rw [hs] at hall
      have hpadded : IsDigits (zeros (layout.exponentDigits - (digitsOf s.leading.natAbs).length) ++
          digitsOf s.leading.natAbs) :=
        ⟨by simp [(isDigits_digitsOf _).1], allDigits_append (allDigits_zeros _) (isDigits_digitsOf _).2⟩
      have hexponent := readExponent?_signed (e := s.leading) hpadded
        (by rw [digitsValue_append, digitsValue_zeros, digitsValue_digitsOf, Nat.zero_mul, Nat.zero_add])
      have hfirst : IsDigits [d] := ⟨List.cons_ne_nil d [], fun c hc => hall c (by simp_all)⟩
      have hread := read?_scientific hfirst (fun c hc => hall c (List.mem_cons_of_mem d hc)) hexponent
      have htext : s.scientific layout = [d] ++ (if fraction.isEmpty then [] else '.' :: fraction) ++
          'e' :: (if s.leading < 0 then '-' else '+') ::
            (zeros (layout.exponentDigits - (digitsOf s.leading.natAbs).length) ++
              digitsOf s.leading.natAbs) := by
        simp [scientific, hs]
      rw [← htext] at hread
      refine ⟨_, hread, ?_⟩
      rw [Decimal.value, value, hs]
      congr 2
      simp only [List.length_cons]
      omega

theorem value_eq_div {n places : Nat} (hn : digitsValue s.digits * 10 ^ k = n)
    (hplaces : (places : Int) = s.digits.length + k - 1 - s.leading) :
    (n / 10 ^ places : ℚ) = s.value := by
  subst hn
  have hexponent : s.leading + 1 - s.digits.length = (k : Int) - places := by omega
  rw [value, hexponent, zpow_sub₀ (by norm_num), zpow_natCast, zpow_natCast, Nat.cast_mul, Nat.cast_pow,
    Nat.cast_ofNat, mul_div_assoc]

theorem positional_reads (h : s.Proper) : ∃ whole fraction,
    s.positional = whole ++ '.' :: fraction ∧ IsDigits whole ∧ IsDigits fraction ∧
      (ofDigits whole fraction).value = s.value := by
  obtain ⟨⟨hne, hall⟩, -⟩ := h
  have hzero : digitsValue ['0'] = 0 := digitsValue_zeros 1
  unfold positional
  split_ifs with hsmall
  · refine ⟨['0'], zeros ((-s.leading).toNat - 1) ++ s.digits, rfl, ⟨List.cons_ne_nil _ _, ?_⟩,
      ⟨by simp [hne], allDigits_append (allDigits_zeros _) hall⟩, ?_⟩
    · exact allDigits_zeros 1
    · rw [value_ofDigits]
      refine value_eq_div (k := 0) ?_ ?_
      · rw [digitsValue_append, digitsValue_append, hzero, digitsValue_zeros]
        simp
      · rw [List.length_append, length_zeros]
        omega
  · have hlength : s.leading = s.leading.toNat := (Int.toNat_of_nonneg (Int.not_lt.mp hsmall)).symm
    have hwhole : IsDigits (s.digits.take (s.leading.toNat + 1) ++
        zeros (s.leading.toNat + 1 - s.digits.length)) :=
      ⟨by simp [hne], allDigits_append (fun c hc => hall c (List.mem_of_mem_take hc)) (allDigits_zeros _)⟩
    dsimp only
    cases hrest : s.digits.drop (s.leading.toNat + 1) with
    | nil =>
        have hfits : s.digits.length ≤ s.leading.toNat + 1 := List.drop_eq_nil_iff.mp hrest
        refine ⟨_, ['0'], rfl, hwhole, ⟨List.cons_ne_nil _ _, allDigits_zeros 1⟩, ?_⟩
        rw [value_ofDigits, List.take_of_length_le hfits]
        refine value_eq_div (k := s.leading.toNat + 1 - s.digits.length + 1) ?_ ?_
        · rw [digitsValue_append, digitsValue_append, hzero, digitsValue_zeros, length_zeros, pow_succ]
          simp [Nat.mul_assoc]
        · simp only [List.length_cons, List.length_nil]
          omega
    | cons c more =>
        have hlong : s.leading.toNat + 1 < s.digits.length := by
          by_contra hshort
          rw [List.drop_of_length_le (Nat.le_of_not_lt hshort)] at hrest
          cases hrest
        refine ⟨_, c :: more, rfl, hwhole, ⟨List.cons_ne_nil _ _, fun d hd => ?_⟩, ?_⟩
        · exact hall d (List.mem_of_mem_drop (hrest ▸ hd))
        · rw [value_ofDigits, Nat.sub_eq_zero_of_le hlong.le]
          refine value_eq_div (k := 0) ?_ ?_
          · rw [zeros, List.replicate_zero, List.append_nil, ← hrest, List.take_append_drop]
            simp
          · rw [← hrest, List.length_drop]
            omega

end Significand

theorem strip_zeros (digits : List Char) :
    ∃ k, digits = (digits.reverse.dropWhile (· == '0')).reverse ++ zeros k := by
  refine ⟨(digits.reverse.takeWhile (· == '0')).length, ?_⟩
  have hzeros : digits.reverse.takeWhile (· == '0') =
      zeros (digits.reverse.takeWhile (· == '0')).length :=
    List.eq_replicate_of_mem fun c hc => eq_of_beq (List.mem_takeWhile_imp (p := (· == '0')) hc)
  have hreverse : (zeros (digits.reverse.takeWhile (· == '0')).length).reverse =
      zeros (digits.reverse.takeWhile (· == '0')).length := List.reverse_replicate
  rw [← hreverse, ← List.reverse_append, ← hzeros, List.takeWhile_append_dropWhile, List.reverse_reverse]

/-- The digits of a decimal above zero make a significand of the same number. -/
theorem significand_proper {d : Decimal} (h : 0 < d.coefficient) :
    d.significand.Proper ∧ d.significand.value = d.value := by
  obtain ⟨k, hdigits⟩ := strip_zeros (digitsOf d.coefficient)
  have hvalue := digitsValue_digitsOf d.coefficient
  have hall := (isDigits_digitsOf d.coefficient).2
  have hlast : ¬ ['0'] <:+ ((digitsOf d.coefficient).reverse.dropWhile (· == '0')).reverse := by
    intro hsuffix
    rw [← List.reverse_prefix, List.reverse_reverse] at hsuffix
    obtain ⟨more, hmore⟩ := hsuffix
    have hhead := List.head?_dropWhile_not (· == '0') (digitsOf d.coefficient).reverse
    rw [← hmore] at hhead
    simp at hhead
  unfold significand
  dsimp only
  generalize ((digitsOf d.coefficient).reverse.dropWhile (· == '0')).reverse = stripped at hdigits hlast ⊢
  rw [hdigits, digitsValue_append, digitsValue_zeros, length_zeros, Nat.add_zero] at hvalue
  refine ⟨⟨⟨?_, fun c hc => hall c (hdigits ▸ List.mem_append_left _ hc)⟩, hlast⟩, ?_⟩
  · rintro rfl
    rw [← hvalue] at h
    simp [digitsValue] at h
  · rw [hdigits, Significand.value, value, ← hvalue, List.length_append, length_zeros]
    dsimp only
    have hexponent : d.exponent + ((stripped.length + k : Nat) : Int) - 1 + 1 - stripped.length =
        k + d.exponent := by
      push_cast
      omega
    rw [hexponent, zpow_add₀ (by norm_num), zpow_natCast, Nat.cast_mul, Nat.cast_pow, Nat.cast_ofNat,
      mul_assoc]

end Lox.Decimal
