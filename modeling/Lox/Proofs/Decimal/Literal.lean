import Lox.Proofs.Decimal.Display

/-!
# The texts of number literals

A literal of a source is a number without a sign.  Its text is made of digits and a few marks, begins
with a digit and reads back as the number, unless the number is infinite.
-/

namespace Lox

open Decimal

namespace Decimal

/-! ## The word of a number that is not negative -/

theorem toBits_ofBits {bits : UInt64} (h : bits.toNat ≤ infinityWord) : (Float.ofBits bits).toBits = bits := by
  have hbound : bits.toNat ≤ 2047 * 2 ^ 52 := h
  have hvalid : Float.Model.Format.binary64.Valid bits.toBitVec := by
    refine ⟨fun hexponent hmantissa => absurd ?_ hmantissa⟩
    rw [mantissa_eq_zero_iff]
    have hplace := (exponent_eq_iff (n := 2047) (by decide)).mp hexponent
    show bits.toNat % 2 ^ 52 = 0
    replace hplace : bits.toNat % 2 ^ 63 / 2 ^ 52 = 2047 := hplace
    omega
  show (⟨Float.Model.UnpackedFloat.pack .binary64
    (Float.Model.UnpackedFloat.unpack .binary64 bits.toBitVec)⟩ : UInt64) = bits
  rw [pack_unpack hvalid]

theorem toNat_bits {word : Nat} (h : word ≤ infinityWord) : (UInt64.ofNat word).toNat = word := by
  have hbound : word ≤ 2047 * 2 ^ 52 := h
  rw [UInt64.toNat_ofNat']
  omega

theorem word_ofWord {word : Nat} (h : word ≤ infinityWord) :
    Decimal.word (ofWord false word) = word ∧ isNegative (ofWord false word) = false := by
  have hbits : (ofWord false word).toBits.toNat = word := by
    unfold ofWord
    rw [if_neg Bool.false_ne_true, toBits_ofBits (by rwa [toNat_bits h]), toNat_bits h]
  have hbound : word < 2 ^ 63 := lt_of_le_of_lt h (by decide)
  unfold Decimal.word isNegative
  rw [hbits]
  exact ⟨Nat.mod_eq_of_lt hbound, decide_eq_false (Nat.not_le_of_lt hbound)⟩

theorem nearest_le (d : Decimal) : d.nearest ≤ infinityWord := by
  unfold nearest
  split <;> exact Nat.min_le_right _ _

/-! ## The text of a number that is not negative -/

end Decimal

namespace Number

variable {word : Nat}

def isNumberChar (c : Char) : Bool :=
  isDigit c || c == '.' || c == 'e' || c == '+' || c == '-'

/-- A text that a finite number without a sign can have. -/
structure Describes (text : List Char) (word : Nat) : Prop where
  head : ∃ c cs, text = c :: cs ∧ isDigit c = true
  chars : ∀ c ∈ text, isNumberChar c = true
  reads : ∃ d, read? text = some d ∧ d.nearest = word

theorem isNumberChar_of_isDigit {c : Char} (h : isDigit c = true) : isNumberChar c = true := by
  simp [isNumberChar, h]

theorem describes_positional {s : Significand} (hproper : s.Proper)
    (hnearest : ∀ d : Decimal, d.value = s.value → d.nearest = word) : Describes s.positional word := by
  obtain ⟨whole, fraction, htext, hwhole, hfraction, hvalue⟩ := Significand.positional_reads hproper
  rw [htext]
  refine ⟨?_, ?_, _, read?_fraction hwhole hfraction.2, hnearest _ hvalue⟩
  · cases whole with
    | nil => exact absurd rfl hwhole.1
    | cons c cs => exact ⟨c, cs ++ '.' :: fraction, rfl, hwhole.head⟩
  · intro c hc
    rcases List.mem_append.mp hc with hc | hc
    · exact isNumberChar_of_isDigit (hwhole.2 c hc)
    · rcases List.mem_cons.mp hc with rfl | hc
      · rfl
      · exact isNumberChar_of_isDigit (hfraction.2 c hc)

theorem describes_scientific {s : Significand} (layout : Layout) (hproper : s.Proper)
    (hnearest : ∀ d : Decimal, d.value = s.value → d.nearest = word) :
    Describes (s.scientific layout) word := by
  obtain ⟨d, hread, hvalue⟩ := Significand.scientific_reads layout hproper
  refine ⟨?_, ?_, d, hread, hnearest d hvalue⟩
  · cases hdigits : s.digits with
    | nil => exact absurd hdigits hproper.digits.1
    | cons c cs =>
        unfold Significand.scientific
        rw [hdigits]
        exact ⟨c, _, rfl, hproper.digits.2 c (hdigits ▸ List.mem_cons_self)⟩
  · intro c hc
    have hdigit : ∀ c ∈ s.digits, isNumberChar c = true := fun c hc =>
      isNumberChar_of_isDigit (hproper.digits.2 c hc)
    unfold Significand.scientific at hc
    simp only [List.append_assoc, List.mem_append, List.mem_cons, List.cons_append] at hc
    rcases hc with hc | hc | rfl | rfl | hc | hc
    · exact hdigit c (List.mem_of_mem_take hc)
    · split at hc
      · cases hc
      · rcases List.mem_cons.mp hc with rfl | hc
        · rfl
        · exact hdigit c (List.mem_of_mem_drop hc)
    · rfl
    · split <;> rfl
    · exact isNumberChar_of_isDigit (allDigits_zeros _ c hc)
    · exact isNumberChar_of_isDigit (isDigit_of_mem_digitsOf hc)

theorem describes_magnitudeText (h : word < infinityWord) : Describes (magnitudeText word) word := by
  unfold magnitudeText
  split_ifs with hzero
  · have hread : read? ['0', '.', '0'] = some ⟨0, -1⟩ := by decide
    have hchars : ∀ c ∈ ['0', '.', '0'], isNumberChar c = true := by
      intro c hc
      fin_cases hc <;> rfl
    refine ⟨⟨'0', ['.', '0'], rfl, by decide⟩, hchars, _, hread, nearest_of_value h.le ?_⟩
    rw [hzero, magnitude_zero, value, Nat.cast_zero, zero_mul]
  · obtain ⟨hproper, hvalue⟩ := significand_proper (shortest_pos (Nat.pos_of_ne_zero hzero))
    have hnearest : ∀ d : Decimal, d.value = (shortest word).significand.value → d.nearest = word :=
      fun d hd => by rw [nearest_congr (hd.trans hvalue), shortest_nearest h.le]
    unfold Layout.write
    split_ifs
    · exact describes_positional hproper hnearest
    · exact describes_scientific layout hproper hnearest

theorem literalText_readPositional (text : List Char) :
    (∃ word < infinityWord, Describes (literalText (readPositional text)).toList word ∧
      readPositional text = ofWord false word) ∨
    literalText (readPositional text) = "inf" ∧
      readPositional text = ofWord false infinityWord := by
  obtain ⟨word, hle, hread⟩ : ∃ word ≤ infinityWord, readPositional text = ofWord false word :=
    ⟨_, nearest_le _, rfl⟩
  obtain ⟨hword, hsign⟩ := word_ofWord hle
  rw [hread]
  unfold literalText
  dsimp only
  rw [hword, hsign, if_neg (Nat.not_lt_of_le hle)]
  rcases Nat.lt_or_eq_of_le hle with hfinite | rfl
  · refine .inl ⟨word, hfinite, ?_, rfl⟩
    rw [if_neg hfinite.ne, signed, String.toList_ofList]
    exact describes_magnitudeText hfinite
  · rw [if_pos rfl]
    exact .inr ⟨rfl, rfl⟩

end Number

end Lox
