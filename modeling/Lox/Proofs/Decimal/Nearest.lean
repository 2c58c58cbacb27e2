import Lox.Decimal.Basic
import Mathlib

/-!
# Rounding to the nearest double

`nearestWord` is correct rounding: no double is nearer to the number, and of two that are equally
near it is the one with the even word.
-/

namespace Lox.Decimal

/-! ## Steps -/

theorem steps_of_lt {word : Nat} (h : word < 2 ^ 52) : steps word = word :=
  if_pos (Nat.div_eq_of_lt h)

theorem steps_of_ge {word : Nat} (h : 2 ^ 52 ≤ word) :
    steps word = (2 ^ 52 + word % 2 ^ 52) * 2 ^ (word / 2 ^ 52 - 1) :=
  if_neg (show ¬ word / 2 ^ 52 = 0 by omega)

/-- A whole number of up to 53 bits, of exactly as many if any bits follow, is found at its place in
its binade; the next power of two is found there as well. -/
theorem steps_place {shift m : Nat} (hm : m ≤ 2 ^ 53) (hfull : shift = 0 ∨ 2 ^ 52 ≤ m) :
    steps (shift * 2 ^ 52 + m) = m * 2 ^ shift := by
  rcases Nat.lt_or_ge m (2 ^ 52) with hshort | hlong
  · obtain rfl : shift = 0 := by omega
    rw [steps_of_lt (by omega), Nat.zero_mul, Nat.zero_add, Nat.pow_zero, Nat.mul_one]
  · rw [steps_of_ge (by omega)]
    rcases Nat.lt_or_ge m (2 ^ 53) with hfits | hcarry
    · have hdiv : (shift * 2 ^ 52 + m) / 2 ^ 52 - 1 = shift := by omega
      have hmod : 2 ^ 52 + (shift * 2 ^ 52 + m) % 2 ^ 52 = m := by omega
      rw [hdiv, hmod]
    · have hdiv : (shift * 2 ^ 52 + m) / 2 ^ 52 - 1 = shift + 1 := by omega
      have hmod : 2 ^ 52 + (shift * 2 ^ 52 + m) % 2 ^ 52 = 2 ^ 52 := by omega
      obtain rfl : m = 2 ^ 53 := by omega
      rw [hdiv, hmod]
      ring

theorem exists_place (word : Nat) :
    ∃ shift m, m < 2 ^ 53 ∧ (shift = 0 ∨ 2 ^ 52 ≤ m) ∧ word = shift * 2 ^ 52 + m := by
  rcases Nat.lt_or_ge word (2 ^ 52) with hlow | hhigh
  · exact ⟨0, word, by omega, .inl rfl, by omega⟩
  · exact ⟨word / 2 ^ 52 - 1, 2 ^ 52 + word % 2 ^ 52, by omega, .inr (by omega), by omega⟩

theorem steps_lt_succ (word : Nat) : steps word < steps (word + 1) := by
  obtain ⟨shift, m, hm, hfull, rfl⟩ := exists_place word
  rw [Nat.add_assoc, steps_place (by omega) hfull, steps_place hm (by omega)]
  exact Nat.mul_lt_mul_of_pos_right (Nat.lt_succ_self m) (Nat.two_pow_pos shift)

theorem steps_strictMono : StrictMono steps :=
  strictMono_nat_of_lt_succ steps_lt_succ

/-! ## Halves -/

section Halves

variable {num den : Nat}

theorem roundHalfEven_eq_or (num den : Nat) :
    roundHalfEven num den = num / den ∨ roundHalfEven num den = num / den + 1 := by
  unfold roundHalfEven
  dsimp only
  split_ifs <;> simp

/-- The rounded number is at most a half away, and even if it is just that. -/
theorem roundHalfEven_spec (num : Nat) (hden : 0 < den) :
    2 * roundHalfEven num den * den ≤ 2 * num + den ∧
      2 * num ≤ (2 * roundHalfEven num den + 1) * den ∧
      (2 * roundHalfEven num den * den = 2 * num + den ∨
        2 * num = (2 * roundHalfEven num den + 1) * den → roundHalfEven num den % 2 = 0) := by
  have hsplit := Nat.div_add_mod num den
  have hrest := Nat.mod_lt num hden
  unfold roundHalfEven
  dsimp only
  generalize num / den = below at hsplit ⊢
  generalize num % den = rest at hsplit hrest ⊢
  subst hsplit
  split_ifs <;> refine ⟨by nlinarith, by nlinarith, fun htie => ?_⟩
  · rcases htie with htie | htie <;> nlinarith
  · rcases htie with htie | htie <;> nlinarith
  · assumption
  · omega

theorem roundHalfEven_mul {k : Nat} (hk : 0 < k) :
    roundHalfEven (num * k) (den * k) = roundHalfEven num den := by
  unfold roundHalfEven
  dsimp only
  rw [Nat.mul_div_mul_right _ _ hk, Nat.mul_mod_mul_right, ← Nat.mul_assoc]
  simp only [Nat.mul_lt_mul_right hk]

end Halves

theorem roundHalfEven_nearest (num : Nat) {den : Nat} (hden : 0 < den) (k : Nat) :
    |(num / den : ℚ) - roundHalfEven num den| ≤ |(num / den : ℚ) - k| ∧
      (k ≠ roundHalfEven num den →
        |(num / den : ℚ) - roundHalfEven num den| = |(num / den : ℚ) - k| →
        roundHalfEven num den % 2 = 0) := by
  obtain ⟨hlow, hhigh, htie⟩ := roundHalfEven_spec num hden
  generalize roundHalfEven num den = r at hlow hhigh htie ⊢
  have hpos : (0 : ℚ) < den := Nat.cast_pos.mpr hden
  generalize hx : (num / den : ℚ) = x
  have hnum : (num : ℚ) = x * den := by rw [← hx, div_mul_cancel₀ _ hpos.ne']
  have hhalf : |x - r| ≤ 1 / 2 := by
    have hlow' : (2 * r * den : ℚ) ≤ 2 * num + den := mod_cast hlow
    have hhigh' : (2 * num : ℚ) ≤ (2 * r + 1) * den := mod_cast hhigh
    rw [hnum] at hlow' hhigh'
    rw [abs_le]
    constructor <;> nlinarith
  have heven : |x - r| = 1 / 2 → r % 2 = 0 := by
    intro habs
    apply htie
    rcases (abs_eq (by norm_num)).mp habs with hup | hdown
    · right
      have : (2 * num : ℚ) = (2 * r + 1) * den := by
        rw [hnum]
        linear_combination 2 * den * hup
      exact_mod_cast this
    · left
      have : (2 * r * den : ℚ) = 2 * num + den := by
        rw [hnum]
        linear_combination -2 * den * hdown
      exact_mod_cast this
  rcases eq_or_ne k r with rfl | hk
  · exact ⟨le_refl _, fun h => absurd rfl h⟩
  -- Whole numbers are one apart, so any other one is at least a half away.
  have hother : 1 / 2 ≤ |x - k| := by
    have hgap : (1 : ℚ) ≤ |(r : ℚ) - k| := by
      have : (1 : ℤ) ≤ |(r : ℤ) - k| := Int.one_le_abs (sub_ne_zero.mpr (mod_cast hk.symm))
      exact_mod_cast this
    have htriangle : |(r : ℚ) - k| ≤ |x - r| + |x - k| := by
      rw [abs_sub_comm x r]
      exact abs_sub_le _ _ _
    linarith
  exact ⟨hhalf.trans hother, fun _ habs => heven (le_antisymm hhalf (habs ▸ hother))⟩

/-! ## Correct rounding -/

def magnitude (word : Nat) : ℚ :=
  steps word / 2 ^ 1074

/-- The word is that of the double nearest to the number `q`. -/
structure Nearest (q : ℚ) (word : Nat) : Prop where
  bounded : word ≤ infinityWord
  closest : ∀ other ≤ infinityWord, |q - magnitude word| ≤ |q - magnitude other|
  even : ∀ other ≤ infinityWord, other ≠ word → |q - magnitude word| = |q - magnitude other| →
    word % 2 = 0

section

variable {num den : Nat}

theorem log2_shift (n : Nat) : n < 2 ^ 53 * 2 ^ (n.log2 - 52) ∧
    (n.log2 - 52 = 0 ∨ 2 ^ 52 * 2 ^ (n.log2 - 52) ≤ n) := by
  rcases Nat.lt_or_ge n (2 ^ 53) with hshort | hlong
  · have hlog : n.log2 - 52 = 0 := by
      rcases Nat.eq_zero_or_pos n with rfl | hpos
      · rfl
      · have := (Nat.log2_lt hpos.ne').mpr hshort
        omega
    rw [hlog]
    exact ⟨hshort, .inl rfl⟩
  · have hpos : n ≠ 0 := by omega
    have hlog : 53 ≤ n.log2 := (Nat.le_log2 hpos).mpr hlong
    rw [← Nat.pow_add, ← Nat.pow_add]
    constructor
    · rw [← Nat.log2_lt hpos]
      omega
    · right
      rw [← Nat.le_log2 hpos]
      omega

/-- The word of a number of steps if there were no largest double. -/
def freeWord (num den : Nat) : Nat :=
  let shift := (num / den).log2 - 52
  shift * 2 ^ 52 + roundHalfEven num (den * 2 ^ shift)

theorem nearestWord_eq_min (num den : Nat) :
    nearestWord num den = min (freeWord (num * Nat.pow 2 1074) den) infinityWord := by
  unfold nearestWord freeWord
  rfl

theorem roundHalfEven_shift (num den : Nat) :
    roundHalfEven num (den * 2 ^ ((num / den).log2 - 52)) ≤ 2 ^ 53 ∧
      ((num / den).log2 - 52 = 0 ∨
        2 ^ 52 ≤ roundHalfEven num (den * 2 ^ ((num / den).log2 - 52))) := by
  obtain ⟨hhigh, hlow⟩ := log2_shift (num / den)
  have hrounded := roundHalfEven_eq_or num (den * 2 ^ ((num / den).log2 - 52))
  rw [← Nat.div_div_eq_div_mul] at hrounded
  generalize (num / den).log2 - 52 = shift at hhigh hlow hrounded ⊢
  have hfloor : num / den / 2 ^ shift < 2 ^ 53 := (Nat.div_lt_iff_lt_mul (Nat.two_pow_pos _)).mpr hhigh
  refine ⟨by omega, hlow.imp_right fun hlow => ?_⟩
  have : 2 ^ 52 ≤ num / den / 2 ^ shift := (Nat.le_div_iff_mul_le (Nat.two_pow_pos _)).mpr hlow
  omega

theorem steps_freeWord (num den : Nat) :
    steps (freeWord num den) =
      roundHalfEven num (den * 2 ^ ((num / den).log2 - 52)) * 2 ^ ((num / den).log2 - 52) :=
  steps_place (roundHalfEven_shift num den).1 (roundHalfEven_shift num den).2

theorem shifted_distance (num den shift k : Nat) :
    |(num / den : ℚ) - (k * 2 ^ shift : Nat)| =
      |(num / (den * 2 ^ shift : Nat) : ℚ) - k| * 2 ^ shift := by
  have hunit : (0 : ℚ) < 2 ^ shift := by positivity
  have hmul := abs_mul (num / (den * 2 ^ shift : Nat) - k : ℚ) (2 ^ shift)
  rw [abs_of_pos hunit] at hmul
  rw [← hmul]
  congr 1
  push_cast
  field_simp

theorem distance_lt_of_lt {num den least low : Nat} (hfloor : least ≤ num / den) (hlow : low < least) :
    |(num / den : ℚ) - least| < |(num / den : ℚ) - low| := by
  have hreach : (least : ℚ) ≤ num / den := le_trans (mod_cast hfloor) Nat.cast_div_le
  have hcast : (low : ℚ) < least := mod_cast hlow
  rw [abs_of_nonneg (by linarith), abs_of_nonneg (by linarith)]
  linarith

/-- No number of steps is nearer, and an equally near one only to an even word. -/
theorem freeWord_nearest (num : Nat) (hden : 0 < den) (other : Nat) :
    |(num / den : ℚ) - steps (freeWord num den)| ≤ |(num / den : ℚ) - steps other| ∧
      (other ≠ freeWord num den →
        |(num / den : ℚ) - steps (freeWord num den)| = |(num / den : ℚ) - steps other| →
        freeWord num den % 2 = 0) := by
  have hsteps := steps_freeWord num den
  have hlow := (log2_shift (num / den)).2
  have hparity : freeWord num den % 2 =
      roundHalfEven num (den * 2 ^ ((num / den).log2 - 52)) % 2 := by
    unfold freeWord
    dsimp only
    omega
  have hinjective : steps other = steps (freeWord num den) → other = freeWord num den :=
    fun heq => steps_strictMono.injective heq
  generalize freeWord num den = word at hsteps hparity hinjective ⊢
  generalize (num / den).log2 - 52 = shift at hsteps hlow hparity ⊢
  have hnearest := fun k => roundHalfEven_nearest num
    (Nat.mul_pos hden (Nat.two_pow_pos shift)) k
  generalize roundHalfEven num (den * 2 ^ shift) = r at hsteps hparity hnearest ⊢
  have hunit : (0 : ℚ) < 2 ^ shift := by positivity
  have hscale := shifted_distance num den shift
  rw [hsteps, hscale]
  obtain ⟨coarse, m, hm, hfull, hother⟩ := exists_place other
  have hotherSteps : steps other = m * 2 ^ coarse := by
    rw [hother, steps_place (by omega) hfull]
  rcases Nat.lt_or_ge coarse shift with hfine | hgrid
  · -- A double of a lower binade is farther away than the least one of this binade.
    have hle := mul_le_mul_of_nonneg_right (hnearest (2 ^ 52)).1 hunit.le
    rw [← hscale (2 ^ 52)] at hle
    have hbelow : steps other < 2 ^ 52 * 2 ^ shift := by
      have hpow : 2 * 2 ^ coarse ≤ 2 ^ shift := by
        rw [← Nat.pow_succ']
        exact Nat.pow_le_pow_right (by decide) hfine
      rw [hotherSteps]
      nlinarith [Nat.two_pow_pos coarse]
    have hfloor : 2 ^ 52 * 2 ^ shift ≤ num / den := hlow.resolve_left (by omega)
    generalize 2 ^ 52 * 2 ^ shift = least at hle hbelow hfloor
    have hstrict := distance_lt_of_lt hfloor hbelow
    exact ⟨(hle.trans_lt hstrict).le, fun _ habs => absurd habs (hle.trans_lt hstrict).ne⟩
  -- All other doubles lie on the grid of whole numbers that was rounded to.
  · have hk : steps other = m * 2 ^ (coarse - shift) * 2 ^ shift := by
      rw [hotherSteps, Nat.mul_assoc, ← Nat.pow_add, Nat.sub_add_cancel hgrid]
    rw [hk, hscale, hparity]
    refine ⟨mul_le_mul_of_nonneg_right (hnearest _).1 hunit.le, fun hne habs => ?_⟩
    refine (hnearest _).2 (fun heq => hne (hinjective ?_)) (mul_right_cancel₀ hunit.ne' habs)
    rw [hk, hsteps, heq]

theorem distance_eq (num den word : Nat) :
    |(num / den : ℚ) - magnitude word| =
      |((num * Nat.pow 2 1074 : Nat) / den : ℚ) - steps word| / 2 ^ 1074 := by
  unfold magnitude
  generalize 1074 = k
  have hunit : (0 : ℚ) < 2 ^ k := by positivity
  have hdiv := abs_div ((num * Nat.pow 2 k : Nat) / den - steps word : ℚ) (2 ^ k)
  rw [abs_of_pos hunit] at hdiv
  rw [← hdiv, sub_div, div_right_comm, Nat.cast_mul, Nat.pow_eq, Nat.cast_pow, Nat.cast_ofNat,
    mul_div_cancel_right₀ _ hunit.ne']

/-- Rounding is correct: to the nearest double, and to the even one of two. -/
theorem nearest_nearestWord (hden : 0 < den) : Nearest (num / den) (nearestWord num den) := by
  have hunit : (0 : ℚ) < 2 ^ 1074 := by positivity
  have hfree := fun other => freeWord_nearest (num * Nat.pow 2 1074) hden other
  rw [nearestWord_eq_min]
  generalize freeWord (num * Nat.pow 2 1074) den = word at hfree ⊢
  rcases Nat.lt_or_ge infinityWord word with hcapped | hle
  · rw [Nat.min_eq_right hcapped.le]
    -- Infinity lies between the number and all doubles below.
    have hreach : (steps infinityWord : ℚ) ≤ (num * Nat.pow 2 1074 : Nat) / den := by
      by_contra hshort
      have hmono : (steps infinityWord : ℚ) < steps word := mod_cast steps_strictMono hcapped
      have hcloser := (hfree infinityWord).1
      rw [abs_of_neg (by linarith), abs_of_neg (by linarith)] at hcloser
      linarith
    have hcloser : ∀ other ≤ infinityWord, other ≠ infinityWord →
        |(num / den : ℚ) - magnitude infinityWord| < |(num / den : ℚ) - magnitude other| := by
      intro other hother hne
      have hbelow : (steps other : ℚ) < steps infinityWord :=
        mod_cast steps_strictMono (Nat.lt_of_le_of_ne hother hne)
      rw [distance_eq, distance_eq, abs_of_nonneg (by linarith), abs_of_nonneg (by linarith)]
      exact div_lt_div_of_pos_right (by linarith) hunit
    refine ⟨le_refl _, fun other hother => ?_, fun other hother hne habs => ?_⟩
    · rcases eq_or_ne other infinityWord with rfl | hne
      · exact le_refl _
      · exact (hcloser other hother hne).le
    · exact absurd habs (hcloser other hother hne).ne
  · rw [Nat.min_eq_left hle]
    refine ⟨hle, fun other _ => ?_, fun other _ hne habs => ?_⟩
    · rw [distance_eq, distance_eq]
      exact div_le_div_of_nonneg_right (hfree other).1 hunit.le
    · rw [distance_eq, distance_eq] at habs
      exact (hfree other).2 hne ((div_left_inj' hunit.ne').mp habs)

/-! ## Numbers that are rounded alike -/

theorem nearestWord_mul {k : Nat} (hk : 0 < k) : nearestWord (num * k) (den * k) = nearestWord num den := by
  unfold nearestWord
  dsimp only
  rw [Nat.mul_right_comm num, Nat.mul_div_mul_right _ _ hk, Nat.mul_right_comm den,
    roundHalfEven_mul hk]

theorem nearestWord_congr {num' den' : Nat} (hden : 0 < den) (hden' : 0 < den')
    (h : (num / den : ℚ) = num' / den') : nearestWord num den = nearestWord num' den' := by
  have hcross : num * den' = num' * den := by
    rw [div_eq_div_iff (mod_cast hden.ne') (mod_cast hden'.ne')] at h
    exact_mod_cast h
  rw [← nearestWord_mul hden', hcross, Nat.mul_comm den, nearestWord_mul hden]

theorem magnitude_strictMono : StrictMono magnitude := by
  intro word other hlt
  have hsteps : (steps word : ℚ) < steps other := mod_cast steps_strictMono hlt
  exact div_lt_div_of_pos_right hsteps (by positivity)

theorem magnitude_zero : magnitude 0 = 0 := by
  rw [magnitude, steps_of_lt (Nat.two_pow_pos 52), Nat.cast_zero, zero_div]

/-- A double is nearest to itself only. -/
theorem Nearest.of_magnitude {word found : Nat} (hword : word ≤ infinityWord)
    (h : Nearest (magnitude word) found) : found = word := by
  have hclose := h.closest word hword
  rw [sub_self, abs_zero, abs_nonpos_iff, sub_eq_zero] at hclose
  exact (magnitude_strictMono.injective hclose).symm

theorem Nearest.of_large {q : ℚ} {found : Nat} (hq : magnitude infinityWord ≤ q)
    (h : Nearest q found) : found = infinityWord := by
  by_contra hne
  have hbelow := magnitude_strictMono (Nat.lt_of_le_of_ne h.bounded hne)
  have hclose := h.closest infinityWord (Nat.le_refl _)
  rw [abs_of_nonneg (by linarith), abs_of_nonneg (by linarith)] at hclose
  linarith

theorem Nearest.of_small {q : ℚ} {found : Nat} (hq : 0 ≤ q) (hsmall : 2 * q < magnitude 1)
    (h : Nearest q found) : found = 0 := by
  by_contra hne
  have hleast := magnitude_strictMono.monotone (Nat.one_le_iff_ne_zero.mpr hne)
  have hclose := h.closest 0 (Nat.zero_le _)
  rw [magnitude_zero, sub_zero, abs_of_nonneg hq, abs_of_neg (by linarith)] at hclose
  linarith

end

/-! ## Decimals -/

def value (d : Decimal) : ℚ :=
  d.coefficient * 10 ^ d.exponent

theorem cast_pow_ten (n : Nat) : ((Nat.pow 10 n : Nat) : ℚ) = 10 ^ n :=
  Nat.cast_pow 10 n

theorem nearest_quotient (d : Decimal) :
    ∃ num den : Nat, 0 < den ∧ d.value = num / den ∧ d.nearest = nearestWord num den := by
  obtain ⟨coefficient, exponent⟩ := d
  rcases le_or_gt 0 exponent with hup | hdown
  · obtain ⟨n, rfl⟩ := Int.eq_ofNat_of_zero_le hup
    refine ⟨coefficient * Nat.pow 10 n, 1, Nat.one_pos, ?_, if_pos hup⟩
    rw [value, zpow_natCast, Nat.cast_mul, cast_pow_ten, Nat.cast_one, div_one]
  · obtain ⟨n, rfl⟩ := Int.eq_negSucc_of_lt_zero hdown
    refine ⟨coefficient, Nat.pow 10 (n + 1), Nat.pow_pos (by decide), ?_,
      if_neg (Int.not_le.mpr hdown)⟩
    rw [value, zpow_negSucc, cast_pow_ten, div_eq_mul_inv]

theorem nearest_spec (d : Decimal) : Nearest d.value d.nearest := by
  obtain ⟨num, den, hden, hvalue, hnearest⟩ := d.nearest_quotient
  rw [hvalue, hnearest]
  exact nearest_nearestWord hden

theorem nearest_congr {d e : Decimal} (h : d.value = e.value) : d.nearest = e.nearest := by
  obtain ⟨num, den, hden, hvalue, hnearest⟩ := d.nearest_quotient
  obtain ⟨num', den', hden', hvalue', hnearest'⟩ := e.nearest_quotient
  rw [hnearest, hnearest']
  exact nearestWord_congr hden hden' (hvalue ▸ hvalue' ▸ h)

theorem nearest_of_value {d : Decimal} {word : Nat} (hword : word ≤ infinityWord)
    (h : d.value = magnitude word) : d.nearest = word :=
  (h ▸ d.nearest_spec).of_magnitude hword

theorem value_nonneg (d : Decimal) : 0 ≤ d.value := by
  unfold value
  positivity

theorem cast_quotient {a b k n : Nat} (h : a + b = k + n) :
    ((2 ^ a * 2 ^ b : Nat) : ℚ) / 2 ^ k = 2 ^ n := by
  rw [div_eq_iff (by positivity), Nat.cast_mul, Nat.cast_pow, Nat.cast_pow, Nat.cast_ofNat, ← pow_add,
    ← pow_add, h, Nat.add_comm]

theorem magnitude_infinityWord : magnitude infinityWord = 2 ^ 1024 := by
  have hinfinity : infinityWord = 2046 * 2 ^ 52 + 2 ^ 52 := by decide
  rw [magnitude, hinfinity, steps_place (by decide) (.inr (Nat.le_refl _))]
  exact cast_quotient rfl

theorem two_pow_le {n k : Nat} (h : n ≤ 3 * k) : (2 : ℚ) ^ n ≤ 10 ^ k :=
  calc (2 : ℚ) ^ n ≤ 2 ^ (3 * k) := pow_le_pow_right₀ (by norm_num) h
    _ = (2 ^ 3) ^ k := pow_mul 2 3 k
    _ ≤ 10 ^ k := pow_le_pow_left₀ (by norm_num) (by norm_num) k

theorem nearest_of_large {d : Decimal} (h : (10 : ℚ) ^ 400 ≤ d.value) : d.nearest = infinityWord := by
  refine d.nearest_spec.of_large (le_trans ?_ h)
  rw [magnitude_infinityWord]
  exact two_pow_le (by decide)

theorem nearest_of_small {d : Decimal} (h : d.value * 10 ^ 400 < 1) : d.nearest = 0 := by
  refine d.nearest_spec.of_small d.value_nonneg ?_
  have hdouble : ∀ k : Nat, 2 * d.value * 2 ^ k = d.value * 2 ^ (k + 1) := fun k => by ring
  rw [magnitude, steps_of_lt (by decide), Nat.cast_one, lt_div_iff₀ (by positivity), hdouble]
  exact lt_of_le_of_lt (mul_le_mul_of_nonneg_left (two_pow_le (by decide)) d.value_nonneg) h

theorem nearest_bounded (d : Decimal) : d.bounded.nearest = d.nearest := by
  unfold bounded
  split_ifs with hzero hlarge hsmall
  · refine nearest_congr ?_
    rw [value, value, hzero, Nat.cast_zero, zero_mul, zero_mul]
  · have hone : (1 : ℚ) ≤ d.coefficient := mod_cast Nat.one_le_iff_ne_zero.mpr hzero
    rw [nearest_of_large, nearest_of_large]
    · calc (10 : ℚ) ^ 400 = 10 ^ (400 : ℤ) := (zpow_natCast 10 400).symm
        _ ≤ 10 ^ d.exponent := zpow_le_zpow_right₀ (by norm_num) hlarge.le
        _ ≤ d.value := le_mul_of_one_le_left (by positivity) hone
    · rw [value, Nat.cast_one, one_mul]
      exact (zpow_natCast (10 : ℚ) 400).ge
  · rw [nearest_of_small, nearest_of_small]
    · have hdigits : (d.coefficient : ℚ) < 10 ^ ((d.coefficient.log2 : ℤ) + 1) := by
        have hbits : d.coefficient < 10 ^ (d.coefficient.log2 + 1) :=
          lt_of_lt_of_le Nat.lt_log2_self (Nat.pow_le_pow_left (by decide) _)
        exact_mod_cast hbits
      calc d.value * 10 ^ 400
          = d.coefficient * 10 ^ (d.exponent + 400) := by
            rw [value, mul_assoc, zpow_add₀ (by norm_num), zpow_ofNat]
        _ < 10 ^ ((d.coefficient.log2 : ℤ) + 1) * 10 ^ (d.exponent + 400) :=
            mul_lt_mul_of_pos_right hdigits (by positivity)
        _ = 10 ^ ((d.coefficient.log2 : ℤ) + 1 + (d.exponent + 400)) :=
            (zpow_add₀ (by norm_num) _ _).symm
        _ ≤ 10 ^ (0 : ℤ) := zpow_le_zpow_right₀ (by norm_num) (by omega)
        _ = 1 := zpow_zero 10
    · rw [value, Nat.cast_zero, zero_mul, zero_mul]
      exact one_pos
  · rfl

end Lox.Decimal
