import Lox.Decimal.Rounding
import Mathlib

/-!
# Doubles and their words

A double is its sign and its word.  The word is `infinityWord` for infinity, larger for `nan`, and
for the finite doubles it grows with the number.
-/

namespace Lox.Decimal

open Float.Model (UnpackedFloat Format)
open Float.Model.UnpackedFloat

/-! ## The parts of a representation -/

section Parts

variable {b : BitVec Format.binary64.numBits}

theorem toNat_mantissa (b : BitVec Format.binary64.numBits) :
    (unpackMantissa b).toNat = b.toNat % 2 ^ 52 := by
  simp [unpackMantissa]

theorem toNat_exponent (b : BitVec Format.binary64.numBits) :
    (unpackExponent b).toNat = b.toNat / 2 ^ 52 % 2 ^ 11 := by
  simp [unpackExponent, Nat.shiftRight_eq_div_pow]

theorem toNat_sign (b : BitVec Format.binary64.numBits) :
    (unpackSign b).toNat = b.toNat / 2 ^ 63 := by
  have hb : b.toNat < 2 ^ 64 := b.isLt
  simp only [unpackSign, BitVec.toNat_cast, BitVec.extractLsb_toNat, Nat.shiftRight_eq_div_pow]
  exact Nat.mod_eq_of_lt (by omega)

theorem sign_of_toNat (b : BitVec Format.binary64.numBits) :
    Sign.ofBitVec (unpackSign b) = if b.toNat < 2 ^ 63 then .positive else .negative := by
  unfold Sign.ofBitVec
  refine if_congr ?_ rfl rfl
  rw [← BitVec.toNat_inj, toNat_sign]
  simp [Nat.div_eq_zero_iff]

theorem toBitVec_ofBitVec (s : BitVec 1) : (Sign.ofBitVec s).toBitVec = s := by
  obtain rfl | rfl := BitVec.eq_zero_or_eq_one s <;> rfl

theorem packComponents_parts (b : BitVec Format.binary64.numBits) :
    packComponents .binary64 (.ofBitVec (unpackSign b)) (unpackExponent b) (unpackMantissa b) = b := by
  simp only [packComponents, toBitVec_ofBitVec, unpackSign, unpackExponent, unpackMantissa,
    BitVec.extractLsb]
  ext i hi
  grind

/-! ## Unpacking -/

theorem exponent_eq_iff {n : Nat} (hn : n < 2 ^ 11) :
    unpackExponent b = BitVec.ofNat 11 n ↔ b.toNat % 2 ^ 63 / 2 ^ 52 = n := by
  rw [← BitVec.toNat_inj, toNat_exponent, BitVec.toNat_ofNat, Nat.mod_eq_of_lt hn]
  omega

theorem mantissa_eq_zero_iff : unpackMantissa b = 0#52 ↔ b.toNat % 2 ^ 52 = 0 := by
  rw [← BitVec.toNat_inj, toNat_mantissa]
  rfl

theorem unpack_of_zero (h : b.toNat % 2 ^ 63 = 0) :
    unpack .binary64 b = .zero (.ofBitVec (unpackSign b)) := by
  have hexponent : unpackExponent b = 0#11 := (exponent_eq_iff (by decide)).mpr (by omega)
  have hmantissa : unpackMantissa b = 0#52 := mantissa_eq_zero_iff.mpr (by omega)
  unfold unpack
  rw [if_neg (by rw [hexponent]; decide), if_pos hexponent, dif_pos hmantissa]

theorem unpack_of_subnormal (hpos : 0 < b.toNat % 2 ^ 63) (h : b.toNat % 2 ^ 63 < 2 ^ 52) :
    unpack .binary64 b = .finite (.ofBitVec (unpackSign b)) (b.toNat % 2 ^ 63) (-1074) hpos := by
  have hexponent : unpackExponent b = 0#11 := (exponent_eq_iff (by decide)).mpr (by omega)
  have hmantissa : unpackMantissa b ≠ 0#52 := fun hzero => by
    have := mantissa_eq_zero_iff.mp hzero
    omega
  unfold unpack
  rw [if_neg (by rw [hexponent]; decide), if_pos hexponent, dif_neg hmantissa]
  congr 1
  · rw [toNat_mantissa]
    omega
  · rw [hexponent]
    rfl

theorem unpack_of_normal (h : 2 ^ 52 ≤ b.toNat % 2 ^ 63) (hfinite : b.toNat % 2 ^ 63 < infinityWord) :
    unpack .binary64 b =
      .finite (.ofBitVec (unpackSign b)) (2 ^ 52 + b.toNat % 2 ^ 52)
        ((b.toNat % 2 ^ 63 / 2 ^ 52 : Nat) - 1075) (by omega) := by
  have hbound : b.toNat % 2 ^ 63 < 2047 * 2 ^ 52 := hfinite
  have hall : unpackExponent b ≠ -1#11 := fun hexponent => by
    have := (exponent_eq_iff (n := 2047) (by decide)).mp hexponent
    omega
  have hnone : unpackExponent b ≠ 0#11 := fun hexponent => by
    have := (exponent_eq_iff (n := 0) (by decide)).mp hexponent
    omega
  have himplicit : (1#1 ++ unpackMantissa b).toNat = 2 ^ 52 + b.toNat % 2 ^ 52 := by
    rw [BitVec.toNat_append, ← Nat.shiftLeft_add_eq_or_of_lt (unpackMantissa b).isLt, toNat_mantissa]
    rfl
  unfold unpack
  rw [if_neg hall, if_neg hnone]
  congr 1
  rw [toNat_exponent]
  have hbias : ((Format.binary64.exponentBias : Nat) : Int) = 1023 := rfl
  have hbits : ((Format.binary64.mantissaBitsWithoutImplicit : Nat) : Int) = 52 := rfl
  omega

theorem unpack_of_pos (hpos : 0 < b.toNat % 2 ^ 63) (hfinite : b.toNat % 2 ^ 63 < infinityWord) :
    ∃ m e hm, unpack .binary64 b = .finite (.ofBitVec (unpackSign b)) m e hm := by
  rcases Nat.lt_or_ge (b.toNat % 2 ^ 63) (2 ^ 52) with hsub | hnormal
  · exact ⟨_, _, _, unpack_of_subnormal hpos hsub⟩
  · exact ⟨_, _, _, unpack_of_normal hnormal hfinite⟩

theorem unpackExponent_of_infinite (h : infinityWord ≤ b.toNat % 2 ^ 63) :
    unpackExponent b = -1#11 := by
  have hbound : 2047 * 2 ^ 52 ≤ b.toNat % 2 ^ 63 := h
  exact (exponent_eq_iff (n := 2047) (by decide)).mpr (by omega)

theorem isFinite_unpack (b : BitVec Format.binary64.numBits) :
    (unpack .binary64 b).isFinite = true ↔ b.toNat % 2 ^ 63 < infinityWord := by
  constructor
  · intro hfinite
    by_contra hinfinite
    have hexponent := unpackExponent_of_infinite (Nat.le_of_not_lt hinfinite)
    unfold unpack at hfinite
    rw [if_pos hexponent] at hfinite
    split at hfinite <;> cases hfinite
  · intro hfinite
    rcases Nat.eq_zero_or_pos (b.toNat % 2 ^ 63) with hzero | hpos
    · rw [unpack_of_zero hzero]
      rfl
    · obtain ⟨m, e, hm, hunpack⟩ := unpack_of_pos hpos hfinite
      rw [hunpack]
      rfl

theorem packComponents_of_parts {e : BitVec 11} {m : BitVec 52} (he : unpackExponent b = e)
    (hm : unpackMantissa b = m) : packComponents .binary64 (.ofBitVec (unpackSign b)) e m = b := by
  subst he hm
  exact packComponents_parts b

theorem pack_unpack_subnormal (hpos : 0 < b.toNat % 2 ^ 63) (hsub : b.toNat % 2 ^ 63 < 2 ^ 52) :
    pack .binary64 (unpack .binary64 b) = b := by
  have hlog : (b.toNat % 2 ^ 63).log2 < 52 := (Nat.log2_lt (by omega)).mpr hsub
  have hbits : Format.binary64.mantissaBits = 53 := rfl
  rw [unpack_of_subnormal hpos hsub]
  unfold pack
  rw [if_neg (by decide), if_neg (by omega)]
  refine packComponents_of_parts ((exponent_eq_iff (n := 0) (by decide)).mpr (by omega)) ?_
  rw [← BitVec.toNat_inj, toNat_mantissa, BitVec.toNat_ofNat]
  show b.toNat % 2 ^ 52 = b.toNat % 2 ^ 63 % 2 ^ 52
  omega

theorem pack_unpack_normal (hnormal : 2 ^ 52 ≤ b.toNat % 2 ^ 63)
    (hfinite : b.toNat % 2 ^ 63 < infinityWord) : pack .binary64 (unpack .binary64 b) = b := by
  have hbound : b.toNat % 2 ^ 63 < 2047 * 2 ^ 52 := hfinite
  have hlog : (2 ^ 52 + b.toNat % 2 ^ 52).log2 = 52 :=
    (Nat.log2_eq_iff (by omega)).mpr ⟨by omega, by omega⟩
  have hbits : Format.binary64.mantissaBits = 53 := rfl
  have hbiased : (((b.toNat % 2 ^ 63 / 2 ^ 52 : Nat) - 1075 : Int) +
      (Format.binary64.exponentBias : Nat) +
      (Format.binary64.mantissaBitsWithoutImplicit : Nat)).toNat =
        b.toNat % 2 ^ 63 / 2 ^ 52 := by
    have hbias : ((Format.binary64.exponentBias : Nat) : Int) = 1023 := rfl
    have hbits : ((Format.binary64.mantissaBitsWithoutImplicit : Nat) : Int) = 52 := rfl
    omega
  have hroom : ¬ 2 ^ 11 ≤ b.toNat % 2 ^ 63 / 2 ^ 52 + 1 := by omega
  rw [unpack_of_normal hnormal hfinite]
  unfold pack
  rw [hbiased, if_neg hroom, hlog, if_pos hbits.symm]
  refine packComponents_of_parts ((exponent_eq_iff (by omega)).mpr rfl) ?_
  rw [← BitVec.toNat_inj, toNat_mantissa, BitVec.toNat_ofNat]
  show b.toNat % 2 ^ 52 = (2 ^ 52 + b.toNat % 2 ^ 52) % 2 ^ 52
  omega

theorem pack_unpack (hvalid : Format.binary64.Valid b) : pack .binary64 (unpack .binary64 b) = b := by
  rcases Nat.lt_or_ge (b.toNat % 2 ^ 63) infinityWord with hfinite | hinfinite
  · rcases Nat.eq_zero_or_pos (b.toNat % 2 ^ 63) with hzero | hpos
    · rw [unpack_of_zero hzero]
      exact packComponents_of_parts ((exponent_eq_iff (n := 0) (by decide)).mpr (by omega))
        (mantissa_eq_zero_iff.mpr (by omega))
    · rcases Nat.lt_or_ge (b.toNat % 2 ^ 63) (2 ^ 52) with hsub | hnormal
      · exact pack_unpack_subnormal hpos hsub
      · exact pack_unpack_normal hnormal hfinite
  · have hexponent := unpackExponent_of_infinite hinfinite
    by_cases hmantissa : unpackMantissa b = 0#52
    · unfold unpack
      rw [if_pos hexponent, if_pos hmantissa]
      exact packComponents_of_parts hexponent hmantissa
    · unfold unpack
      rw [if_pos hexponent, if_neg hmantissa]
      exact (hvalid.eq_packedNaN hexponent hmantissa).symm

/-! ## Order -/

/-- Of two numbers one has the smaller exponent, or the same one and the smaller mantissa. -/
theorem compare_finite {m n : Nat} {e f : Int} {hm : 0 < m} {hn : 0 < n}
    (h : e < f ∨ e = f ∧ m < n) :
    (UnpackedFloat.finite .positive m e hm).compare (.finite .positive n f hn) = some .lt ∧
      (UnpackedFloat.finite .positive n f hn).compare (.finite .positive m e hm) = some .gt := by
  unfold UnpackedFloat.compare
  rcases h with hlt | ⟨rfl, hlt⟩
  · rw [Int.compare_eq_lt.mpr hlt, Int.compare_eq_gt.mpr hlt]
    exact ⟨rfl, rfl⟩
  · rw [Int.compare_eq_eq.mpr rfl, Nat.compare_eq_lt.mpr hlt, Nat.compare_eq_gt.mpr hlt]
    exact ⟨rfl, rfl⟩

theorem sign_of_finite (h : b.toNat < infinityWord) :
    b.toNat % 2 ^ 63 = b.toNat ∧ Sign.ofBitVec (unpackSign b) = .positive := by
  have hbound : b.toNat < 2047 * 2 ^ 52 := h
  rw [sign_of_toNat, if_pos (by omega)]
  exact ⟨by omega, rfl⟩

theorem compare_of_lt {c : BitVec Format.binary64.numBits} (hlt : b.toNat < c.toNat)
    (hfinite : c.toNat < infinityWord) :
    (unpack .binary64 b).compare (unpack .binary64 c) = some .lt ∧
      (unpack .binary64 c).compare (unpack .binary64 b) = some .gt := by
  have hbound : c.toNat < 2047 * 2 ^ 52 := hfinite
  obtain ⟨hb, hbsign⟩ := sign_of_finite (Nat.lt_trans hlt hfinite)
  obtain ⟨hc, hcsign⟩ := sign_of_finite hfinite
  have hcpos : 0 < c.toNat % 2 ^ 63 := by omega
  rcases Nat.eq_zero_or_pos (b.toNat % 2 ^ 63) with hzero | hbpos
  · obtain ⟨m, e, hm, hunpack⟩ := unpack_of_pos hcpos (hc.symm ▸ hfinite)
    rw [unpack_of_zero hzero, hunpack, hcsign]
    exact ⟨rfl, rfl⟩
  · rcases Nat.lt_or_ge (b.toNat % 2 ^ 63) (2 ^ 52) with hbsub | hbnormal
    · rw [unpack_of_subnormal hbpos hbsub, hbsign]
      rcases Nat.lt_or_ge (c.toNat % 2 ^ 63) (2 ^ 52) with hcsub | hcnormal
      · rw [unpack_of_subnormal hcpos hcsub, hcsign]
        exact compare_finite (.inr ⟨rfl, by omega⟩)
      · rw [unpack_of_normal hcnormal (hc.symm ▸ hfinite), hcsign]
        exact compare_finite (by omega)
    · rw [unpack_of_normal hbnormal (hb.symm ▸ Nat.lt_trans hlt hfinite), hbsign,
        unpack_of_normal (by omega) (hc.symm ▸ hfinite), hcsign]
      exact compare_finite (by omega)

theorem compare_self (hfinite : b.toNat < infinityWord) :
    (unpack .binary64 b).compare (unpack .binary64 b) = some .eq := by
  obtain ⟨hb, hsign⟩ := sign_of_finite hfinite
  have hself : ∀ {m e hm}, (UnpackedFloat.finite .positive m e hm).compare
      (.finite .positive m e hm) = some .eq := by
    intro m e hm
    unfold UnpackedFloat.compare
    rw [Int.compare_eq_eq.mpr rfl, Nat.compare_eq_eq.mpr rfl]
    rfl
  rcases Nat.eq_zero_or_pos (b.toNat % 2 ^ 63) with hzero | hpos
  · rw [unpack_of_zero hzero]
    rfl
  · rcases Nat.lt_or_ge (b.toNat % 2 ^ 63) (2 ^ 52) with hsub | hnormal
    · rw [unpack_of_subnormal hpos hsub, hsign]
      exact hself
    · rw [unpack_of_normal hnormal (hb.symm ▸ hfinite), hsign]
      exact hself

end Parts

/-! ## Doubles -/

theorem ofBits_toBits (x : Float) : Float.ofBits x.toBits = x := by
  obtain ⟨bits, hvalid⟩ := x
  have hbits : (⟨pack .binary64 (unpack .binary64 bits.toBitVec)⟩ : UInt64) = bits := by
    rw [pack_unpack hvalid]
  unfold Float.ofBits Float.Model.ofBits Float.Model.pack Float.toBits
  congr 2

/-- A double is its sign and its word. -/
theorem ofWord_word (x : Float) : ofWord (isNegative x) (word x) = x := by
  have hbits : (if isNegative x then Nat.pow 2 63 + word x else word x) = x.toBits.toNat := by
    have hbound := x.toBits.toNat_lt
    unfold isNegative word
    split
    · next h =>
        have : 2 ^ 63 ≤ x.toBits.toNat := of_decide_eq_true h
        show 2 ^ 63 + x.toBits.toNat % 2 ^ 63 = x.toBits.toNat
        omega
    · next h =>
        have : ¬ 2 ^ 63 ≤ x.toBits.toNat := fun hle => h (decide_eq_true hle)
        show x.toBits.toNat % 2 ^ 63 = x.toBits.toNat
        omega
  rw [ofWord, hbits, UInt64.ofNat_toNat, ofBits_toBits]

theorem isFinite_iff (x : Float) : x.isFinite = true ↔ word x < infinityWord :=
  isFinite_unpack x.toBits.toBitVec

theorem toNat_toBits {x : Float} (hx : isNegative x = false) : x.toBits.toNat = word x :=
  (Nat.mod_eq_of_lt (Nat.lt_of_not_le (of_decide_eq_false hx))).symm

theorem compare_word {x y : Float} (hx : isNegative x = false) (hy : isNegative y = false)
    (hxfinite : word x < infinityWord) (hyfinite : word y < infinityWord) :
    x.toModel.compare y.toModel = some (compare (word x) (word y)) := by
  rw [← toNat_toBits hx] at hxfinite ⊢
  rw [← toNat_toBits hy] at hyfinite ⊢
  rcases Nat.lt_trichotomy x.toBits.toNat y.toBits.toNat with hlt | heq | hgt
  · rw [Nat.compare_eq_lt.mpr hlt]
    exact (compare_of_lt hlt hyfinite).1
  · have hbits : x.toBits.toBitVec = y.toBits.toBitVec := BitVec.eq_of_toNat_eq heq
    rw [Nat.compare_eq_eq.mpr heq]
    show (unpack .binary64 x.toBits.toBitVec).compare (unpack .binary64 y.toBits.toBitVec) = some .eq
    rw [hbits]
    exact compare_self hyfinite
  · rw [Nat.compare_eq_gt.mpr hgt]
    exact (compare_of_lt hgt hxfinite).2

theorem le_iff_word {x y : Float} (hx : isNegative x = false) (hy : isNegative y = false)
    (hxfinite : word x < infinityWord) (hyfinite : word y < infinityWord) :
    x ≤ y ↔ word x ≤ word y := by
  have hcompare := compare_word hx hy hxfinite hyfinite
  show decide (((x.toModel.compare y.toModel).any (·.isLE)) = true) = true ↔ _
  rw [hcompare]
  simp [Nat.isLE_compare]

theorem lt_iff_word {x y : Float} (hx : isNegative x = false) (hy : isNegative y = false)
    (hxfinite : word x < infinityWord) (hyfinite : word y < infinityWord) :
    x < y ↔ word x < word y := by
  have hcompare := compare_word hx hy hxfinite hyfinite
  show decide ((x.toModel.compare y.toModel == some .lt) = true) = true ↔ _
  rw [hcompare]
  simp [compare_lt_iff_lt]

theorem isNegative_of_le {x y : Float} (hx : isNegative x = false) (hpos : 0 < word x)
    (hxfinite : word x < infinityWord) (hyfinite : word y < infinityWord) (hle : x ≤ y) :
    isNegative y = false := by
  by_contra hy
  have hxbits : x.toBits.toNat < infinityWord := toNat_toBits hx ▸ hxfinite
  have hxsign := (sign_of_finite (b := x.toBits.toBitVec) hxbits).2
  have hysign := sign_of_toNat y.toBits.toBitVec
  rw [if_neg (Nat.not_lt_of_le (of_decide_eq_true (Bool.not_eq_false _ ▸ hy)))] at hysign
  obtain ⟨m, e, hm, hxunpack⟩ := unpack_of_pos (b := x.toBits.toBitVec) hpos hxfinite
  have hcompare : x.toModel.compare y.toModel = some .gt := by
    show (unpack .binary64 x.toBits.toBitVec).compare (unpack .binary64 y.toBits.toBitVec) = some .gt
    rw [hxunpack, hxsign]
    rcases Nat.eq_zero_or_pos (word y) with hzero | hypos
    · rw [unpack_of_zero hzero]
      rfl
    · obtain ⟨m', e', hm', hyunpack⟩ := unpack_of_pos (b := y.toBits.toBitVec) hypos hyfinite
      rw [hyunpack, hysign]
      rfl
  have hcontra : decide (((x.toModel.compare y.toModel).any (·.isLE)) = true) = true := hle
  rw [hcompare] at hcontra
  cases hcontra

end Lox.Decimal
