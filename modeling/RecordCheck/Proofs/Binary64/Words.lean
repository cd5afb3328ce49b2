import Mathlib
import RecordCheck.Proofs.Binary64.Nearest
set_option autoImplicit false

/-!
# Binary64: doubles and their words

Each word is that of what is not a number, or a sign and the word of a magnitude up to that of the
infinity (`bits_cases`); each double but one has a word of the second kind (`float_cases`).  The
datum of such a word is the significand and the power of two of its magnitude.
-/

namespace RecordCheck.Binary64

open Float.Model
open Float.Model.UnpackedFloat (Sign packComponents unpackSign unpackExponent unpackMantissa
  packedInfinity packedZero packedNaN)

theorem toNat_mantissa (b : BitVec 64) :
    (@unpackMantissa Format.binary64 b).toNat = b.toNat % 2 ^ 52 := by
  simp [unpackMantissa]

theorem toNat_exponent (b : BitVec 64) :
    (@unpackExponent Format.binary64 b).toNat = b.toNat / 2 ^ 52 % 2 ^ 11 := by
  simp [unpackExponent, Nat.shiftRight_eq_div_pow]

theorem toNat_sign (b : BitVec 64) :
    (@unpackSign Format.binary64 b).toNat = b.toNat / 2 ^ 63 := by
  have hlt : b.toNat / 2 ^ 63 < 2 := by have := b.isLt; omega
  simpa [unpackSign, Nat.shiftRight_eq_div_pow] using Nat.mod_eq_of_lt hlt

theorem toNat_append_add {m n : Nat} (x : BitVec m) (y : BitVec n) :
    (x ++ y).toNat = x.toNat * 2 ^ n + y.toNat := by
  rw [BitVec.toNat_append, ← Nat.shiftLeft_add_eq_or_of_lt y.isLt, Nat.shiftLeft_eq]

theorem toNat_packComponents (s : Sign) (e : BitVec 11) (m : BitVec 52) :
    (packComponents Format.binary64 s e m).toNat =
      s.toBitVec.toNat * 2 ^ 63 + e.toNat * 2 ^ 52 + m.toNat := by
  unfold packComponents
  rw [toNat_append_add, toNat_append_add]
  ring

theorem toBitVec_ofBitVec (b : BitVec 1) : (Sign.ofBitVec b).toBitVec = b := by
  revert b; decide

/-- A word is its three fields. -/
theorem packComponents_unpack (b : BitVec 64) :
    packComponents Format.binary64 (Sign.ofBitVec (@unpackSign Format.binary64 b))
      (unpackExponent b) (unpackMantissa b) = b := by
  apply BitVec.eq_of_toNat_eq
  rw [toNat_packComponents, toBitVec_ofBitVec, toNat_sign, toNat_exponent, toNat_mantissa]
  have := b.isLt
  omega

theorem pack_unpack {b : BitVec 64}
    (h : @unpackExponent Format.binary64 b = -1#_ →
      @unpackMantissa Format.binary64 b = 0#_) :
    UnpackedFloat.pack Format.binary64 (UnpackedFloat.unpack Format.binary64 b) = b := by
  have hfields := packComponents_unpack b
  have hm : (@unpackMantissa Format.binary64 b).toNat < 2 ^ 52 := BitVec.isLt _
  have he : (@unpackExponent Format.binary64 b).toNat < 2 ^ 11 := BitVec.isLt _
  unfold UnpackedFloat.unpack
  simp only
  split_ifs with h1 h2 h3 h4
  · simpa [UnpackedFloat.pack, packedInfinity, h1, h2] using hfields
  · exact absurd (h h1) h2
  · simpa [UnpackedFloat.pack, packedZero, h3, h4] using hfields
  · -- below the normal range
    have hlog : (@unpackMantissa Format.binary64 b).toNat.log2 < 52 := by
      rw [Nat.log2_lt (by simpa [← BitVec.toNat_inj] using h4)]; exact hm
    simp only [UnpackedFloat.pack, h3]
    rw [if_neg (by simp [Format.exponentBias]), if_neg (by simp [Format.mantissaBits]; omega)]
    simpa [h3] using hfields
  · have hsig : (1#1 ++ @unpackMantissa Format.binary64 b).toNat =
        2 ^ 52 + (@unpackMantissa Format.binary64 b).toNat := by
      rw [toNat_append_add]; rfl
    have hlog : (1#1 ++ @unpackMantissa Format.binary64 b).toNat.log2 = 52 := by
      rw [Nat.log2_eq_iff (by omega)]
      omega
    have hmax : (@unpackExponent Format.binary64 b).toNat ≠ 2047 := by
      intro hmax
      exact h1 (BitVec.eq_of_toNat_eq (by rw [hmax]; rfl))
    simp only [UnpackedFloat.pack]
    rw [if_neg (by simp [Format.exponentBias]; omega), if_pos (by rw [hlog]; rfl)]
    have hexponent : BitVec.ofNat 11 (((@unpackExponent Format.binary64 b).toNat : Int) -
        (Format.binary64.exponentBias + Format.binary64.mantissaBitsWithoutImplicit) +
        Format.binary64.exponentBias + Format.binary64.mantissaBitsWithoutImplicit).toNat =
          @unpackExponent Format.binary64 b := by
      apply BitVec.eq_of_toNat_eq
      rw [BitVec.toNat_ofNat]
      omega
    have hmantissa : BitVec.ofNat 52 (1#1 ++ @unpackMantissa Format.binary64 b).toNat =
        @unpackMantissa Format.binary64 b := by
      apply BitVec.eq_of_toNat_eq
      rw [BitVec.toNat_ofNat, hsig]
      omega
    rw [hexponent, hmantissa]
    exact hfields

theorem toBits_ofBits {bits : UInt64}
    (h : bits.toNat / binade % 2048 = 2047 → bits.toNat % binade = 0) :
    (Float.ofBits bits).toBits = bits := by
  have hpack : UnpackedFloat.pack Format.binary64 (UnpackedFloat.unpack Format.binary64
      bits.toBitVec) = bits.toBitVec := by
    apply pack_unpack
    intro hexponent
    apply BitVec.eq_of_toNat_eq
    rw [toNat_mantissa]
    apply h
    have := congrArg BitVec.toNat hexponent
    rw [toNat_exponent] at this
    exact this
  show UInt64.ofBitVec (UnpackedFloat.pack Format.binary64 (UnpackedFloat.unpack Format.binary64
    bits.toBitVec)) = bits
  rw [hpack]

theorem toBits_injective : Function.Injective Float.toBits := by
  rintro ⟨⟨bits, hvalid⟩⟩ ⟨⟨bits', hvalid'⟩⟩ h
  obtain rfl : bits = bits' := h
  rfl

/-- One double is not a number. -/
theorem eq_notNumber {x : Float} (hexponent : x.toBits.toNat / binade % 2048 = 2047)
    (hfraction : x.toBits.toNat % binade ≠ 0) : x = notNumber := by
  obtain ⟨⟨bits, hvalid⟩⟩ := x
  apply toBits_injective
  have hpacked : bits.toBitVec = packedNaN Format.binary64 := by
    apply hvalid.eq_packedNaN
    · apply BitVec.eq_of_toNat_eq
      rw [toNat_exponent]
      exact hexponent
    · intro hmantissa
      apply hfraction
      have := congrArg BitVec.toNat hmantissa
      rw [toNat_mantissa] at this
      exact this
  show bits = notNumber.toBits
  have hbits : notNumber.toBits.toBitVec = packedNaN Format.binary64 := by decide
  exact UInt64.eq_of_toBitVec_eq (hpacked.trans hbits.symm)

/-! ## Signs and words -/

variable {negative : Bool} {word : Nat}

theorem toNat_signedBits (h : word < twoTo 63) :
    (signedBits negative word).toNat = (if negative then twoTo 63 else 0) + word := by
  have hsign : twoTo 63 = 2 ^ 63 := rfl
  rw [signedBits, UInt64.toNat_ofNat']
  cases negative <;> simp only [if_true, Bool.false_eq_true, if_false] <;> omega

theorem lt_of_le_infinityBits (h : word ≤ infinityBits) : word < twoTo 63 :=
  h.trans_lt (by decide)

/-- A double with a sign and a word has that word, with the sign bit. -/
theorem toBits_withSign_eq (h : word ≤ infinityBits) :
    (withSign negative word).toBits = signedBits negative word := by
  have hbound : infinityBits = 2047 * 2 ^ 52 := by decide
  have hsign : twoTo 63 = 2 ^ 63 := rfl
  have hbinade : binade = 2 ^ 52 := by decide
  rw [withSign, toBits_ofBits]
  rw [toNat_signedBits (lt_of_le_infinityBits h), hbinade]
  cases negative <;> simp only [if_true, Bool.false_eq_true, if_false] <;> omega

theorem toBits_withSign (h : word ≤ infinityBits) :
    (withSign negative word).toBits.toNat = (if negative then twoTo 63 else 0) + word := by
  rw [toBits_withSign_eq h, toNat_signedBits (lt_of_le_infinityBits h)]

/-- The nearest double has the nearest word. -/
theorem IsNearestDouble.toBits {q : ℚ} {x : Float} (h : IsNearestDouble negative q x) :
    IsNearestBits negative q x.toBits := by
  obtain ⟨word, hword, rfl⟩ := h
  exact ⟨word, hword, toBits_withSign_eq hword.1⟩

/-- The sign bit of a sign and a word is the sign. -/
theorem signBit_signedBits (h : word < twoTo 63) :
    signBit (signedBits negative word) = negative := by
  unfold signBit
  rw [toNat_signedBits h]
  cases negative
  · simpa using h
  · simp

/-- Signs and words are told apart when they are put together. -/
theorem signedBits_injective {negative' : Bool} {word' : Nat} (h : word < twoTo 63)
    (h' : word' < twoTo 63) (heq : signedBits negative word = signedBits negative' word') :
    negative = negative' ∧ word = word' := by
  have hsign := congrArg signBit heq
  rw [signBit_signedBits h, signBit_signedBits h'] at hsign
  have hbits := congrArg UInt64.toNat heq
  rw [toNat_signedBits h, toNat_signedBits h', hsign] at hbits
  exact ⟨hsign, Nat.add_left_cancel hbits⟩

theorem isNotNumber_iff {bits : UInt64} : isNotNumber bits = true ↔
    bits.toNat / binade % 2048 = 2047 ∧ bits.toNat % binade ≠ 0 := by
  rw [isNotNumber, beq_iff_eq, Datum.ofBits]
  split_ifs with hpower hfraction hlow
  · simp [hfraction]
  · simp [hpower, hfraction]
  · simp [hpower]
  · simp [hpower]

/-- A word is not that of a number, or it is a sign and the word of a magnitude. -/
theorem bits_cases (bits : UInt64) : isNotNumber bits = true ∨
    ∃ negative word, word ≤ infinityBits ∧ bits = signedBits negative word := by
  have hlt : bits.toNat < 2 ^ 64 := bits.toNat_lt
  have hsign : twoTo 63 = 2 ^ 63 := rfl
  have hbinade : binade = 2 ^ 52 := by decide
  have hbound : infinityBits = 2047 * 2 ^ 52 := by decide
  by_cases hnan : bits.toNat / binade % 2048 = 2047 ∧ bits.toNat % binade ≠ 0
  · exact .inl (isNotNumber_iff.2 hnan)
  · have hword : bits.toNat % 2 ^ 63 ≤ infinityBits := by
      rw [hbinade] at hnan; omega
    refine .inr ⟨decide (2 ^ 63 ≤ bits.toNat), bits.toNat % 2 ^ 63, hword, ?_⟩
    apply UInt64.toNat_inj.mp
    rw [toNat_signedBits (lt_of_le_infinityBits hword), hsign]
    simp only [decide_eq_true_eq]
    split_ifs <;> omega

/-- A double is not a number, or a sign and a word. -/
theorem float_cases (x : Float) :
    x = notNumber ∨ ∃ negative word, word ≤ infinityBits ∧ x = withSign negative word := by
  rcases bits_cases x.toBits with hnan | ⟨negative, word, hword, hbits⟩
  · obtain ⟨hexponent, hfraction⟩ := isNotNumber_iff.1 hnan
    exact .inl (eq_notNumber hexponent hfraction)
  · exact .inr ⟨negative, word, hword,
      toBits_injective (hbits.trans (toBits_withSign_eq hword).symm)⟩

/-! ## The datum of a word -/

/-- The significand of a word without sign. -/
def significand (word : Nat) : Nat :=
  if word / binade = 0 then word else binade + word % binade

/-- The power of two of a word without sign. -/
def power (word : Nat) : Int :=
  if word / binade = 0 then -1074 else (word / binade : Nat) - 1075

theorem ofBits_signedBits (h : word ≤ infinityBits) :
    Datum.ofBits (signedBits negative word) =
      if word = infinityBits then .infinite negative
      else .finite negative (significand word) (power word) := by
  have hsign : twoTo 63 = 2 ^ 63 := rfl
  have hbinade : binade = 2 ^ 52 := by decide
  have hbound : infinityBits = 2047 * 2 ^ 52 := by decide
  have hlt := lt_of_le_infinityBits h
  have hnegative := @signBit_signedBits negative word hlt
  rw [signBit, toNat_signedBits hlt] at hnegative
  have hpower : ((if negative then twoTo 63 else 0) + word) / binade % 2048 = word / binade := by
    rw [hbinade]
    cases negative <;> simp only [if_true, Bool.false_eq_true, if_false] <;> omega
  have hfraction : ((if negative then twoTo 63 else 0) + word) % binade = word % binade := by
    rw [hbinade]
    cases negative <;> simp only [if_true, Bool.false_eq_true, if_false] <;> omega
  unfold Datum.ofBits
  rw [toNat_signedBits hlt]
  simp only [hnegative, hpower, hfraction, significand, power]
  by_cases hinf : word = infinityBits
  · subst hinf
    rw [if_pos (by decide), if_pos (by decide), if_pos rfl]
  · have hne : word / binade ≠ 2047 := by rw [hbinade]; omega
    rw [if_neg hne, if_neg hinf]
    split_ifs with hlow
    · congr 1
      rw [hbinade] at hlow ⊢; omega
    · rfl

theorem ofFloat_withSign (h : word ≤ infinityBits) :
    Datum.ofFloat (withSign negative word) =
      if word = infinityBits then .infinite negative
      else .finite negative (significand word) (power word) := by
  rw [Datum.ofFloat, toBits_withSign_eq h, ofBits_signedBits h]

/-- A sign and the word of a magnitude are those of a number. -/
theorem isNotNumber_signedBits (h : word ≤ infinityBits) :
    isNotNumber (signedBits negative word) = false := by
  rw [isNotNumber, ofBits_signedBits h]
  split_ifs
  · rfl
  · rfl

/-- A double is finite if its exponent is not the greatest one. -/
theorem isFinite_of_exponent {x : Float} (h : x.toBits.toNat / binade % 2048 ≠ 2047) :
    x.isFinite = true := by
  obtain ⟨⟨bits, hvalid⟩⟩ := x
  have hexponent : @unpackExponent Format.binary64 bits.toBitVec ≠ -1#_ := by
    intro hones
    apply h
    have hnat := congrArg BitVec.toNat hones
    rw [toNat_exponent] at hnat
    exact hnat
  show (UnpackedFloat.unpack Format.binary64 bits.toBitVec).isFinite = true
  unfold UnpackedFloat.unpack
  simp only [hexponent, if_false]
  split_ifs <;> rfl

theorem isFinite_withSign (h : word < infinityBits) : (withSign negative word).isFinite = true := by
  have hsign : twoTo 63 = 2 ^ 63 := rfl
  have hbinade : binade = 2 ^ 52 := by decide
  have hbound : infinityBits = 2047 * 2 ^ 52 := by decide
  apply isFinite_of_exponent
  rw [toBits_withSign h.le, hbinade]
  cases negative <;> simp only [if_true, Bool.false_eq_true, if_false] <;> omega

/-- A double that is not finite is no number or infinite. -/
theorem ofFloat_of_not_finite {x : Float} (h : x.isFinite = false) :
    Datum.ofFloat x = .nan ∨ ∃ negative, Datum.ofFloat x = .infinite negative := by
  rcases float_cases x with rfl | ⟨negative, word, hword, rfl⟩
  · exact .inl (by decide +kernel)
  · have hinfinite : word = infinityBits := by
      by_contra hne
      have hfinite := @isFinite_withSign negative word (lt_of_le_of_ne hword hne)
      exact Bool.false_ne_true (h.symm.trans hfinite)
    exact .inr ⟨negative, (ofFloat_withSign hword).trans (if_pos hinfinite)⟩

theorem significand_of_lt (h : word < binade) : significand word = word ∧ power word = -1074 := by
  simp [significand, power, Nat.div_eq_of_lt h]

theorem significand_of_power {k fraction : Nat} (h : fraction < binade) :
    significand ((k + 1) * binade + fraction) = binade + fraction ∧
      power ((k + 1) * binade + fraction) = k - 1074 := by
  have hdiv : ((k + 1) * binade + fraction) / binade = k + 1 := by
    unfold binade at *; omega
  have hmod : ((k + 1) * binade + fraction) % binade = fraction := by
    unfold binade at *; omega
  simp only [significand, power, hdiv, hmod, Nat.add_one_ne_zero, if_false, true_and]
  omega

theorem significand_lt (word : Nat) : significand word < 2 * binade := by
  have := Nat.mod_lt word (show 0 < binade by decide)
  unfold significand
  split_ifs with h
  · unfold binade at *; omega
  · omega

theorem significand_pos (h : 0 < word) : 0 < significand word := by
  unfold significand binade
  split_ifs <;> omega

theorem significand_mod_two (word : Nat) : significand word % 2 = word % 2 := by
  unfold significand binade
  split_ifs <;> omega

theorem twoTo_cast (n : Nat) : (twoTo n : ℚ) = 2 ^ (n : ℤ) := by
  rw [twoTo_eq, zpow_natCast, Nat.cast_pow, Nat.cast_ofNat]

theorem unitsInOne_eq : (unitsInOne : ℚ) = 2 ^ (1074 : ℤ) := twoTo_cast 1074

theorem twoTo_div_unitsInOne (k : Nat) : (twoTo k : ℚ) / unitsInOne = 2 ^ ((k : ℤ) - 1074) := by
  rw [unitsInOne_eq, twoTo_cast, zpow_sub₀ (by decide)]

theorem wordValue_eq (word : Nat) : wordValue word = significand word * (2 : ℚ) ^ power word := by
  rcases word_cases word with h | ⟨k, fraction, h, rfl⟩
  · rw [(significand_of_lt h).1, (significand_of_lt h).2, wordValue, units_of_lt h, unitsInOne_eq,
      div_eq_mul_inv, ← zpow_neg]
  · rw [(significand_of_power h).1, (significand_of_power h).2, wordValue, units_of_power h,
      ← twoTo_div_unitsInOne]
    push_cast
    ring

/-- The word after a word is one unit of its binade away. -/
theorem wordValue_succ (word : Nat) :
    wordValue (word + 1) = wordValue word + (2 : ℚ) ^ power word := by
  rcases word_cases word with h | ⟨k, fraction, h, rfl⟩
  · have hsucc := units_succ 0 word (.inl rfl) (by omega)
    simp only [Nat.zero_mul, Nat.zero_add] at hsucc
    rw [(significand_of_lt h).2, wordValue, wordValue, hsucc]
    have hstep := twoTo_div_unitsInOne 0
    rw [Nat.cast_add, add_div, hstep, Nat.cast_zero, zero_sub]
  · have hword : (k + 1) * binade + fraction = k * binade + (binade + fraction) := by ring
    have hsucc := units_succ k (binade + fraction) (by omega) (by omega)
    rw [← hword] at hsucc
    rw [(significand_of_power h).2, wordValue, wordValue, hsucc, ← twoTo_div_unitsInOne,
      Nat.cast_add,
      add_div]

/-- The word before a word is one unit away, or half a unit if the word starts a binade that is not
the lowest. -/
theorem wordValue_pred (word : Nat) :
    wordValue (word + 1) = wordValue word +
      (2 : ℚ) ^ (if significand (word + 1) = binade ∧ -1074 < power (word + 1)
        then power (word + 1) - 1 else power (word + 1)) := by
  rw [wordValue_succ]
  congr 2
  rcases word_cases (word + 1) with h | ⟨k, fraction, h, hword⟩
  · rw [(significand_of_lt h).2, (significand_of_lt (by omega : word < binade)).2]
    simp
  · rw [hword, (significand_of_power h).1, (significand_of_power h).2]
    by_cases hstart : fraction = 0
    · subst hstart
      rcases Nat.eq_zero_or_pos k with rfl | hk
      · rw [(significand_of_lt (by unfold binade at *; omega : word < binade)).2]
        simp
      · obtain ⟨j, rfl⟩ : ∃ j, k = j + 1 := ⟨k - 1, by omega⟩
        have hbefore : word = (j + 1) * binade + (binade - 1) := by unfold binade at *; omega
        rw [hbefore, (significand_of_power (by decide)).2, if_pos (by omega)]
        push_cast
        ring
    · have hbefore : word = (k + 1) * binade + (fraction - 1) := by unfold binade at *; omega
      rw [hbefore, (significand_of_power (by omega)).2, if_neg (by omega)]

end RecordCheck.Binary64
