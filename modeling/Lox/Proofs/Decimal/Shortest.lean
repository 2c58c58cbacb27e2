import Lox.Decimal.Shortest
import Lox.Proofs.Decimal.Nearest

/-!
# The shortest decimal of a double

Whatever number of digits it takes, the decimal that is found rounds back to the double, and it lies
between the powers of ten around the double.
-/

namespace Lox.Decimal

variable {word : Nat}

/-! ## Powers of ten -/

section Leading

variable {num den : Nat}

theorem digitsOf_bounds {n : Nat} (hn : 0 < n) :
    10 ^ ((digitsOf n).length - 1) ≤ n ∧ n < 10 ^ (digitsOf n).length := by
  unfold digitsOf
  have hlength : 0 < (Nat.toDigits 10 n).length := Nat.length_toDigits_pos
  have hlt := fun k hk => Nat.length_toDigits_le_iff (b := 10) (n := n) (k := k) (by decide) hk
  generalize (Nat.toDigits 10 n).length = length at hlength hlt ⊢
  refine ⟨?_, (hlt length hlength).mp (Nat.le_refl _)⟩
  rcases Nat.eq_or_lt_of_le (Nat.succ_le_of_lt hlength) with rfl | hmore
  · exact hn
  · by_contra hsmall
    have := (hlt (length - 1) (Nat.sub_pos_of_lt hmore)).mpr (Nat.lt_of_not_le hsmall)
    omega

theorem leadingExponent_bounds (hnum : 0 < num) (hden : 0 < den) :
    (10 : ℚ) ^ leadingExponent num den ≤ num / den ∧
      (num / den : ℚ) < 10 ^ (leadingExponent num den + 1) := by
  have hpos : (0 : ℚ) < den := Nat.cast_pos.mpr hden
  unfold leadingExponent
  split_ifs with hle
  · have hwhole : 0 < num / den := Nat.div_pos hle hden
    obtain ⟨hlow, hhigh⟩ := digitsOf_bounds hwhole
    have hlength : 0 < (digitsOf (num / den)).length := Nat.length_toDigits_pos
    generalize (digitsOf (num / den)).length = length at hlow hhigh hlength ⊢
    rw [le_div_iff₀ hpos, div_lt_iff₀ hpos, sub_add_cancel, ← Nat.cast_pred hlength, zpow_natCast,
      zpow_natCast]
    constructor
    · exact_mod_cast (Nat.le_div_iff_mul_le hden).mp hlow
    · exact_mod_cast (Nat.div_lt_iff_lt_mul hden).mp hhigh
  · have hparts : 0 < (den - 1) / num := Nat.div_pos (by omega) hnum
    obtain ⟨hlow, hhigh⟩ := digitsOf_bounds hparts
    have hlength : 0 < (digitsOf ((den - 1) / num)).length := Nat.length_toDigits_pos
    generalize (digitsOf ((den - 1) / num)).length = length at hlow hhigh hlength ⊢
    have hten : (10 : ℚ) ≠ 0 := by norm_num
    have hexponent : -(length : ℤ) + 1 = -((length - 1 : Nat) : ℤ) := by omega
    rw [hexponent, zpow_neg, zpow_neg, zpow_natCast, zpow_natCast, le_div_iff₀ hpos, div_lt_iff₀ hpos,
      inv_mul_le_iff₀ (by positivity), lt_inv_mul_iff₀ (by positivity)]
    constructor
    · have := (Nat.div_lt_iff_lt_mul hnum).mp hhigh
      have hle' : den ≤ 10 ^ length * num := by omega
      exact_mod_cast hle'
    · have := (Nat.le_div_iff_mul_le hnum).mp hlow
      have hlt' : 10 ^ (length - 1) * num < den := by omega
      exact_mod_cast hlt'

end Leading

/-! ## The grid -/

theorem inUnits_quotient (num : Nat) {den : Nat} (unit : Int) (hden : 0 < den) :
    0 < (inUnits num den unit).2 ∧
      ((inUnits num den unit).1 / (inUnits num den unit).2 : ℚ) * 10 ^ unit = num / den := by
  have hpos : (den : ℚ) ≠ 0 := Nat.cast_ne_zero.mpr hden.ne'
  have hten : (10 : ℚ) ≠ 0 := by norm_num
  unfold inUnits
  split_ifs with hup
  · obtain ⟨n, rfl⟩ := Int.eq_ofNat_of_zero_le hup
    refine ⟨Nat.mul_pos hden (Nat.pow_pos (by decide)), ?_⟩
    have hpow : (10 : ℚ) ^ n ≠ 0 := pow_ne_zero n hten
    rw [zpow_natCast, Nat.cast_mul, cast_pow_ten, ← div_div]
    exact div_mul_cancel₀ _ hpow
  · obtain ⟨n, rfl⟩ := Int.eq_negSucc_of_lt_zero (Int.not_le.mp hup)
    refine ⟨hden, ?_⟩
    have hpow : (10 : ℚ) ^ (n + 1) ≠ 0 := pow_ne_zero _ hten
    rw [zpow_negSucc, Nat.cast_mul, Int.neg_negSucc, Int.toNat_natCast, cast_pow_ten, div_mul_eq_mul_div,
      mul_assoc, mul_inv_cancel₀ hpow, mul_one]

theorem magnitude_eq (word : Nat) : magnitude word = steps word / (Nat.pow 2 1074 : Nat) := by
  unfold magnitude
  generalize 1074 = k
  rw [Nat.pow_eq, Nat.cast_pow, Nat.cast_ofNat]

/-- What is found on a grid rounds back to the double and is one of its two neighbours there. -/
theorem onGrid?_eq_some {unit : Int} {d : Decimal} (h : onGrid? word unit = some d) :
    d.nearest = word ∧ ∃ k : Nat, (k * 10 ^ unit ≤ magnitude word ∧
      magnitude word < (k + 1 : Nat) * 10 ^ unit) ∧ (d = ⟨k, unit⟩ ∨ d = ⟨k + 1, unit⟩) := by
  have hden : ∀ k, 0 < Nat.pow 2 k := Nat.two_pow_pos
  have hmagnitude := magnitude_eq word
  replace hden := hden 1074
  unfold onGrid? at h
  generalize Nat.pow 2 1074 = den at h hden hmagnitude
  obtain ⟨hpos, hquotient⟩ := inUnits_quotient (steps word) unit hden
  rw [← hmagnitude] at hquotient
  generalize inUnits (steps word) den unit = units at h hpos hquotient
  obtain ⟨num, den⟩ := units
  dsimp only at h hpos hquotient
  have hunit : (0 : ℚ) < 10 ^ unit := by positivity
  have hfloor : ((num / den : Nat) * 10 ^ unit : ℚ) ≤ magnitude word ∧
      magnitude word < (num / den + 1 : Nat) * 10 ^ unit := by
    rw [← hquotient]
    have hlt : num < (num / den + 1) * den := Nat.lt_mul_of_div_lt (Nat.lt_succ_self _) hpos
    refine ⟨mul_le_mul_of_nonneg_right Nat.cast_div_le hunit.le, mul_lt_mul_of_pos_right ?_ hunit⟩
    rw [div_lt_iff₀ (Nat.cast_pos.mpr hpos)]
    exact_mod_cast hlt
  have hfound : d.nearest = word ∧ (d = ⟨num / den, unit⟩ ∨ d = ⟨num / den + 1, unit⟩) := by
    split at h
    · next hbelow habove =>
        obtain rfl := Option.some.inj h
        rcases roundHalfEven_eq_or num den with heq | heq
        · rw [heq]
          exact ⟨of_decide_eq_true hbelow, .inl rfl⟩
        · rw [heq]
          exact ⟨of_decide_eq_true habove, .inr rfl⟩
    · next hbelow _ =>
        obtain rfl := Option.some.inj h
        exact ⟨of_decide_eq_true hbelow, .inl rfl⟩
    · next _ habove =>
        obtain rfl := Option.some.inj h
        exact ⟨of_decide_eq_true habove, .inr rfl⟩
    · cases h
  exact ⟨hfound.1, num / den, hfloor, hfound.2⟩

theorem value_fives (m k : Nat) : (⟨m * Nat.pow 5 k, -k⟩ : Decimal).value = m / 2 ^ k := by
  have hfive : (5 : ℚ) ^ k ≠ 0 := by positivity
  have hten : (10 : ℚ) ^ k = 2 ^ k * 5 ^ k := by rw [← mul_pow]; norm_num
  rw [value, Nat.cast_mul, Nat.pow_eq, Nat.cast_pow, Nat.cast_ofNat, zpow_neg, zpow_natCast, hten,
    ← div_eq_mul_inv, mul_div_mul_right _ _ hfive]

theorem exact_value (word : Nat) : (exact word).value = magnitude word := by
  have hexponent : (-1074 : Int) = -(1074 : Nat) := rfl
  unfold exact magnitude
  rw [hexponent]
  generalize 1074 = k
  exact value_fives (steps word) k

theorem shortest_nearest (hword : word ≤ infinityWord) : (shortest word).nearest = word := by
  unfold shortest
  dsimp only
  cases hfound : (List.range maxDigits).findSome? fun more : Nat =>
      onGrid? word (leadingExponent (steps word) (Nat.pow 2 1074) - more) with
  | none =>
      rw [Option.getD_none]
      exact nearest_of_value hword (exact_value word)
  | some d =>
      rw [Option.getD_some]
      obtain ⟨more, -, hgrid⟩ := List.exists_of_findSome?_eq_some hfound
      exact (onGrid?_eq_some hgrid).1

theorem power_on_grid (leading : Int) (more n : Nat) :
    (10 : ℚ) ^ (leading + n) = (10 ^ (more + n) : Nat) * 10 ^ (leading - more) := by
  rw [Nat.cast_pow, Nat.cast_ofNat, ← zpow_natCast, ← zpow_add₀ (by norm_num)]
  congr 1
  push_cast
  omega

theorem shortest_bounds (hpos : 0 < word) :
    ∃ leading : Int, (10 : ℚ) ^ leading ≤ magnitude word ∧ magnitude word < 10 ^ (leading + 1) ∧
      10 ^ leading ≤ (shortest word).value ∧ (shortest word).value ≤ 10 ^ (leading + 1) := by
  have hsteps : 0 < steps word := by
    have := steps_strictMono hpos
    omega
  have hden : ∀ k, 0 < Nat.pow 2 k := Nat.two_pow_pos
  replace hden := hden 1074
  have hmagnitude := magnitude_eq word
  unfold shortest
  dsimp only
  generalize Nat.pow 2 1074 = den at hden hmagnitude ⊢
  obtain ⟨hlow, hhigh⟩ := leadingExponent_bounds hsteps hden
  rw [← hmagnitude] at hlow hhigh
  generalize leadingExponent (steps word) den = leading at hlow hhigh ⊢
  refine ⟨leading, hlow, hhigh, ?_⟩
  cases hfound : (List.range maxDigits).findSome? fun more : Nat => onGrid? word (leading - more) with
  | none =>
      rw [Option.getD_none, exact_value]
      exact ⟨hlow, hhigh.le⟩
  | some d =>
      rw [Option.getD_some]
      obtain ⟨more, -, hgrid⟩ := List.exists_of_findSome?_eq_some hfound
      obtain ⟨-, k, ⟨hk, hk'⟩, hd⟩ := onGrid?_eq_some hgrid
      -- Both powers of ten lie on the grid, so neither neighbour is beyond them.
      have hunit : (0 : ℚ) < 10 ^ (leading - more) := by positivity
      have hpower0 := power_on_grid leading more 0
      have hpower1 := power_on_grid leading more 1
      rw [Nat.cast_zero, add_zero] at hpower0
      rw [Nat.cast_one] at hpower1
      rw [hpower0] at hlow ⊢
      rw [hpower1] at hhigh ⊢
      have hfrom : 10 ^ (more + 0) < k + 1 := by
        exact_mod_cast lt_of_mul_lt_mul_right (hlow.trans_lt hk') hunit.le
      have hto : k < 10 ^ (more + 1) := by
        exact_mod_cast lt_of_mul_lt_mul_right (hk.trans_lt hhigh) hunit.le
      have hbetween : ∀ n, 10 ^ (more + 0) ≤ n → n ≤ 10 ^ (more + 1) →
          (10 ^ (more + 0) : Nat) * 10 ^ (leading - more) ≤ (⟨n, leading - more⟩ : Decimal).value ∧
            (⟨n, leading - more⟩ : Decimal).value ≤ (10 ^ (more + 1) : Nat) * 10 ^ (leading - more) :=
        fun n hlow hhigh => ⟨mul_le_mul_of_nonneg_right (Nat.cast_le.mpr hlow) hunit.le,
          mul_le_mul_of_nonneg_right (Nat.cast_le.mpr hhigh) hunit.le⟩
      rcases hd with rfl | rfl
      · exact hbetween k (by omega) (by omega)
      · exact hbetween (k + 1) (by omega) (by omega)

end Lox.Decimal
