import RecordCheck.Proofs.Binary64.Words
set_option autoImplicit false

/-!
# Binary64: products that are not too large

A product is shifted down to 53 bits, rounded, and shifted again if the rounding carried.  It
becomes an infinity only from half a unit above the largest double on (`isInf_mul`).
-/

namespace RecordCheck.Binary64

open Float.Model
open Float.Model.UnpackedFloat

/-- From here on magnitudes are rounded to the infinity. -/
def overflow : ℚ := 2 ^ 1024 - 2 ^ 970

/-! ## Shifting and rounding -/

theorem mantissa_shiftRight (m k : Nat) :
    ((⟨m, false, false⟩ : ExtendedMantissa) >>> k).mantissa = m / 2 ^ k := by
  induction k with
  | zero => simp [HShiftRight.hShiftRight, Nat.repeat]
  | succ k ih =>
    change ((⟨m, false, false⟩ : ExtendedMantissa) >>> k).mantissa / 2 = _
    rw [ih, Nat.div_div_eq_div_mul, pow_succ]

theorem roundBit_shiftRight (m k : Nat) :
    ((⟨m, false, false⟩ : ExtendedMantissa) >>> (k + 1)).roundBit = (m / 2 ^ k % 2 != 0) := by
  change (((⟨m, false, false⟩ : ExtendedMantissa) >>> k).mantissa % 2 != 0) = _
  rw [mantissa_shiftRight]

theorem roundedMantissa_le (em : ExtendedMantissa) :
    em.roundedMantissa ≤ em.mantissa + em.roundBit.toNat := by
  obtain ⟨m, roundBit, stickyBit⟩ := em
  cases roundBit <;> cases stickyBit <;>
    simp only [ExtendedMantissa.roundedMantissa, ExtendedMantissa.accuracy,
      Accuracy.roundToNearestEven, Bool.toNat_true, Bool.toNat_false]
  all_goals omega

/-- Rounding goes at most half a unit up. -/
theorem roundedMantissa_shiftRight_le (m k : Nat) :
    ((⟨m, false, false⟩ : ExtendedMantissa) >>> (k + 1)).roundedMantissa ≤
      (m / 2 ^ k + 1) / 2 := by
  have hle := roundedMantissa_le ((⟨m, false, false⟩ : ExtendedMantissa) >>> (k + 1))
  rw [roundBit_shiftRight, mantissa_shiftRight, pow_succ, ← Nat.div_div_eq_div_mul] at hle
  generalize m / 2 ^ k = q at *
  rcases Nat.mod_two_eq_zero_or_one q with h | h <;> simp [h] at hle <;> omega

theorem roundedMantissa_shiftRight_zero (m : Nat) :
    ((⟨m, false, false⟩ : ExtendedMantissa) >>> 0).roundedMantissa = m := rfl

/-- The exponent for a magnitude below `2 ^ (t + 53)` is at most `t`. -/
theorem targetExponent_le {m : Nat} (hm : m ≠ 0) {e t : Int} (ht : -1074 ≤ t)
    (h : (m : ℚ) * 2 ^ e < 2 ^ (t + 53)) :
    Format.binary64.targetExponent (totalExponent m e) ≤ t := by
  have hlog : (2 : ℚ) ^ (m.log2 : ℤ) ≤ m := by
    rw [zpow_natCast]
    exact_mod_cast Nat.log2_self_le hm
  have hpow : (2 : ℚ) ^ (m.log2 + e) < 2 ^ (t + 53) := by
    rw [zpow_add₀ (by decide)]
    exact (mul_le_mul_of_nonneg_right hlog (by positivity)).trans_lt h
  rw [zpow_lt_zpow_iff_right₀ (by decide)] at hpow
  simp only [Format.targetExponent, totalExponent, Format.mantissaBits, Format.minExponent]
  norm_num
  omega

/-- A magnitude that does not overflow is still below the next power of two when it is rounded. -/
theorem rounded_lt {m k : Nat} {e : Int} (hk : e + k ≤ 971) (h : (m : ℚ) * 2 ^ e < overflow) :
    (((⟨m, false, false⟩ : ExtendedMantissa) >>> k).roundedMantissa : ℚ) * 2 ^ (e + k) <
      2 ^ (1024 : ℤ) := by
  cases k with
  | zero =>
    rw [roundedMantissa_shiftRight_zero, Nat.cast_zero, add_zero]
    refine h.trans ?_
    norm_num [overflow]
  | succ k =>
    have hle := roundedMantissa_shiftRight_le m k
    generalize ((⟨m, false, false⟩ : ExtendedMantissa) >>> (k + 1)).roundedMantissa = r at *
    have hhalf : (2 * r : ℚ) ≤ m / 2 ^ k + 1 := by
      have hdiv : ((m / 2 ^ k : Nat) : ℚ) ≤ m / 2 ^ k := by
        exact_mod_cast Nat.cast_div_le
      have hr : 2 * r ≤ m / 2 ^ k + 1 := by omega
      calc (2 * r : ℚ) ≤ (m / 2 ^ k : Nat) + 1 := by exact_mod_cast hr
        _ ≤ m / 2 ^ k + 1 := by linarith
    have hunit : (2 : ℚ) ^ (e + k) ≤ 2 ^ (970 : ℤ) :=
      zpow_le_zpow_right₀ (by decide) (by push_cast at hk; omega)
    calc (r : ℚ) * 2 ^ (e + (k + 1 : Nat)) = 2 * r * 2 ^ (e + k) := by
          push_cast
          rw [← add_assoc, zpow_add_one₀ (by decide)]
          ring
      _ ≤ (m / 2 ^ k + 1) * 2 ^ (e + k) := mul_le_mul_of_nonneg_right hhalf (by positivity)
      _ = m * 2 ^ e + 2 ^ (e + k) := by
          rw [zpow_add₀ (by decide), zpow_natCast]
          field_simp
      _ < overflow + 2 ^ (970 : ℤ) := add_lt_add_of_lt_of_le h hunit
      _ = 2 ^ (1024 : ℤ) := by norm_num [overflow]

/-- What becomes of a rounded significand, which is shifted once more if the rounding carried. -/
def carried (s : Sign) (m : Nat) (e : Int) : UnpackedFloat :=
  let shift := (Format.binary64.targetExponent (totalExponent m e) - e).toNat
  let final := ((⟨m, false, false⟩ : ExtendedMantissa) >>> shift).mantissa
  if h : final = 0 then .zero s else .finite s final (e + shift) (Nat.pos_of_ne_zero h)

theorem roundWithAccuracy_eq (s : Sign) (m : Nat) (e : Int) :
    let shift := (Format.binary64.targetExponent (totalExponent m e) - e).toNat
    roundWithAccuracy Format.binary64 s m e .exact =
      carried s ((⟨m, false, false⟩ : ExtendedMantissa) >>> shift).roundedMantissa (e + shift) :=
  rfl

/-- The float is a zero, or has an exponent in the range of the finite doubles. -/
inductive InRange : UnpackedFloat → Prop
  | zero (s : Sign) : InRange (.zero s)
  | finite (s : Sign) {m : Nat} {e : Int} (hm : 0 < m) (he : e ≤ 971) : InRange (.finite s m e hm)

theorem carried_inRange (s : Sign) {m : Nat} {e : Int} (he : e ≤ 971)
    (h : (m : ℚ) * 2 ^ e < 2 ^ (1024 : ℤ)) : InRange (carried s m e) := by
  unfold carried
  by_cases hm : m = 0
  · subst hm
    simp only [mantissa_shiftRight, Nat.zero_div, dite_true]
    exact .zero s
  · have htarget : Format.binary64.targetExponent (totalExponent m e) ≤ 971 :=
      targetExponent_le hm (by decide) h
    simp only
    split_ifs
    · exact .zero s
    · exact .finite s _ (by omega)

/-- Rounding keeps a magnitude that does not overflow in range. -/
theorem roundWithAccuracy_inRange (s : Sign) {m : Nat} (hm : m ≠ 0) {e : Int} (he : e ≤ 971)
    (h : (m : ℚ) * 2 ^ e < overflow) :
    InRange (roundWithAccuracy Format.binary64 s m e .exact) := by
  have htarget : Format.binary64.targetExponent (totalExponent m e) ≤ 971 := by
    refine targetExponent_le hm (by decide) (h.trans ?_)
    norm_num [overflow]
  have hshift :
      e + ((Format.binary64.targetExponent (totalExponent m e) - e).toNat : Int) ≤ 971 := by
    omega
  rw [roundWithAccuracy_eq]
  exact carried_inRange s hshift (rounded_lt hshift h)

/-! ## Products -/

theorem isInf_unpack {b : BitVec 64} (h : @unpackExponent Format.binary64 b ≠ -1#_) :
    (UnpackedFloat.unpack Format.binary64 b).isInf = false := by
  unfold UnpackedFloat.unpack
  simp only [h, if_false]
  split_ifs <;> rfl

/-- No float in range is packed as an infinity. -/
theorem InRange.isInf_pack {f : UnpackedFloat} (h : InRange f) :
    (Float.Model.pack f).isInf = false := by
  apply isInf_unpack
  show @unpackExponent Format.binary64 (UnpackedFloat.pack Format.binary64 f) ≠ _
  cases h with
  | zero s =>
    rw [UnpackedFloat.pack, packedZero, unpackExponent_packComponents]
    decide
  | @finite s m e hm he =>
    have hbiased : (e + Format.binary64.exponentBias +
        Format.binary64.mantissaBitsWithoutImplicit).toNat < 2047 := by
      simp only [Format.exponentBias]
      omega
    simp only [UnpackedFloat.pack]
    generalize (e + Format.binary64.exponentBias +
      Format.binary64.mantissaBitsWithoutImplicit).toNat = biased at *
    rw [if_neg (show ¬2048 ≤ biased + 1 by omega)]
    split_ifs
    · rw [unpackExponent_packComponents]
      intro hones
      have hnat : biased % 2048 = 2047 := congrArg BitVec.toNat hones
      omega
    · rw [unpackExponent_packComponents]
      decide

/-- A word that is neither zero nor the infinity is unpacked into its significand and power. -/
theorem unpack_withSign {word : Nat} (hpos : 0 < word) (hlt : word < infinityBits) :
    (withSign false word).toModel.unpack =
      .finite .positive (significand word) (power word) (significand_pos hpos) := by
  have hbound : infinityBits = 2047 * 2 ^ 52 := by decide
  have hbinade : binade = 2 ^ 52 := by decide
  have hbits : (withSign false word).toModel.toBits.toBitVec.toNat = word := by
    have h := @toBits_withSign false word hlt.le
    rwa [if_neg (by decide), Nat.zero_add] at h
  unfold Float.Model.unpack UnpackedFloat.unpack
  generalize (withSign false word).toModel.toBits.toBitVec = b at *
  have hmantissa := toNat_mantissa b
  have hexponent := toNat_exponent b
  have hsign : Sign.ofBitVec (@unpackSign Format.binary64 b) = .positive := by
    have hzero : @unpackSign Format.binary64 b = 0#1 := by
      apply BitVec.eq_of_toNat_eq
      rw [toNat_sign, hbits, Nat.div_eq_of_lt (by omega)]
      rfl
    rw [hzero]
    rfl
  rw [hbits] at hmantissa hexponent
  have hinf : @unpackExponent Format.binary64 b ≠ -1#_ := by
    intro hones
    have hnat := congrArg BitVec.toNat hones
    rw [hexponent, show (-1#11).toNat = 2047 by decide] at hnat
    omega
  have hzero : @unpackExponent Format.binary64 b = 0#_ ↔ word / binade = 0 := by
    rw [← BitVec.toNat_inj, hexponent, hbinade, BitVec.toNat_zero]
    omega
  simp only [hinf, if_false, hzero, hsign]
  have hdiv : word / binade = word / 2 ^ 52 := by rw [hbinade]
  by_cases hlow : word / binade = 0
  · have hnonzero : @unpackMantissa Format.binary64 b ≠ 0#_ := by
      rw [Ne, ← BitVec.toNat_inj, hmantissa, BitVec.toNat_zero]
      omega
    have hsignificand : word % 2 ^ 52 = significand word := by
      rw [significand, if_pos hlow, Nat.mod_eq_of_lt (by omega)]
    have hpower : ((word / 2 ^ 52 % 2 ^ 11 : Nat) : Int) - (1023 + 52) + 1 = power word := by
      rw [power, if_pos hlow]
      omega
    simp only [hlow, if_true, hnonzero, dite_false, hmantissa, hexponent, finite.injEq, true_and]
    exact ⟨hsignificand, hpower⟩
  · have hsignificand : (1#1 ++ @unpackMantissa Format.binary64 b).toNat = significand word := by
      rw [toNat_append_add, hmantissa, significand, if_neg hlow, hbinade]
      rfl
    have hpower : ((word / 2 ^ 52 % 2 ^ 11 : Nat) : Int) - (1023 + 52) = power word := by
      rw [power, if_neg hlow]
      omega
    simp only [hlow, if_false, hexponent, finite.injEq, true_and]
    exact ⟨hsignificand, hpower⟩

theorem power_le {word : Nat} (h : word < infinityBits) : power word ≤ 971 := by
  unfold power
  unfold infinityBits at h
  have := (Nat.div_lt_iff_lt_mul (show 0 < binade by decide)).2 h
  split_ifs <;> omega

theorem power_eq_or_binade_le (word : Nat) : power word = -1074 ∨ binade ≤ significand word := by
  unfold power significand
  split_ifs
  · exact .inl rfl
  · exact .inr (Nat.le_add_right _ _)

/-- A product of magnitudes that does not overflow is no infinity. -/
theorem isInf_mul {u v : Nat} (hu : 0 < u) (hu' : u < infinityBits) (hv : 0 < v)
    (hv' : v < infinityBits) (h : wordValue u * wordValue v < overflow) :
    (withSign false u * withSign false v).isInf = false := by
  show (Float.Model.pack (UnpackedFloat.mul Format.binary64 (withSign false u).toModel.unpack
    (withSign false v).toModel.unpack)).isInf = false
  have hsignificand := significand_pos hu
  have hsignificand' := significand_pos hv
  have hproduct : ((significand u * significand v : Nat) : ℚ) * 2 ^ (power u + power v) =
      wordValue u * wordValue v := by
    rw [wordValue_eq, wordValue_eq, zpow_add₀ (by decide)]
    push_cast
    ring
  rw [unpack_withSign hu hu', unpack_withSign hv hv', UnpackedFloat.mul]
  refine (roundWithAccuracy_inRange _ (Nat.mul_pos hsignificand hsignificand').ne' ?_
    (hproduct ▸ h)).isInf_pack
  have hle := power_le hu'
  have hle' := power_le hv'
  rcases power_eq_or_binade_le u with hlow | hhigh
  · omega
  · rcases power_eq_or_binade_le v with hlow' | hhigh'
    · omega
    · -- Two significands of 53 bits leave little room for the powers.
      have hbinades : (2 : ℚ) ^ (104 : ℤ) ≤ (significand u * significand v : Nat) := by
        have hmul := Nat.mul_le_mul hhigh hhigh'
        rw [show binade * binade = 2 ^ 104 by decide] at hmul
        exact_mod_cast hmul
      have hpow : (2 : ℚ) ^ (104 + (power u + power v)) < 2 ^ (1024 : ℤ) := by
        rw [zpow_add₀ (by decide)]
        calc (2 : ℚ) ^ (104 : ℤ) * 2 ^ (power u + power v)
            ≤ (significand u * significand v : Nat) * 2 ^ (power u + power v) :=
              mul_le_mul_of_nonneg_right hbinades (by positivity)
          _ < overflow := hproduct ▸ h
          _ < 2 ^ (1024 : ℤ) := by norm_num [overflow]
      rw [zpow_lt_zpow_iff_right₀ (by decide)] at hpow
      omega

end RecordCheck.Binary64
