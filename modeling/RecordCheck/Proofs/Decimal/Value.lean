import RecordCheck.Proofs.Binary64.Nearest
import RecordCheck.Decimal.Basic
set_option autoImplicit false

/-!
# Decimal: values

The number that a decimal stands for, and that reading it as a double finds the nearest one: what is
settled without large numbers lies outside the range where rounding would matter.
-/

namespace RecordCheck.Decimal

open Binary64

/-- The number that a decimal stands for. -/
def value (d : Decimal) : ℚ := d.coefficient * (10 : ℚ) ^ d.exponent

theorem lt_pow_digitCount (n : Nat) : n < 10 ^ digitCount n := by
  induction n using digitCount.induct with
  | case1 => simp [digitCount]
  | case2 n hn ih =>
    rw [digitCount, if_neg hn, pow_succ]
    omega

theorem pow_digitCount_le {n : Nat} (hn : n ≠ 0) : 10 ^ (digitCount n - 1) ≤ n := by
  induction n using digitCount.induct with
  | case1 => exact absurd rfl hn
  | case2 n _ ih =>
    rw [digitCount, if_neg hn, Nat.add_sub_cancel]
    by_cases hsmall : n / 10 = 0
    · rw [hsmall, digitCount, if_pos rfl]
      omega
    · have hpos : 0 < digitCount (n / 10) := by
        rw [digitCount, if_neg hsmall]; omega
      obtain ⟨k, hk⟩ : ∃ k, digitCount (n / 10) = k + 1 := ⟨_, (Nat.succ_pred hpos.ne').symm⟩
      have := ih hsmall
      rw [hk] at this ⊢
      rw [Nat.add_sub_cancel] at this
      rw [pow_succ]
      omega

theorem stripped_value (d : Decimal) : d.stripped.value = d.value := by
  induction d using stripped.induct with
  | case1 d h => rw [stripped, dif_pos h]
  | case2 d h hten ih =>
    rw [stripped, dif_neg h, if_pos hten, ih]
    have hsplit : (d.coefficient : ℚ) = (d.coefficient / 10 : Nat) * 10 := by
      exact_mod_cast (by omega : d.coefficient = d.coefficient / 10 * 10)
    rw [value, value, hsplit, zpow_add_one₀ (by norm_num)]
    ring
  | case3 d h hten => rw [stripped, dif_neg h, if_neg hten]

theorem value_lt_pow (d : Decimal) : d.value < 10 ^ (digitCount d.coefficient + d.exponent) := by
  rw [value, zpow_add₀ (by norm_num), zpow_natCast]
  have hcoefficient : (d.coefficient : ℚ) < 10 ^ digitCount d.coefficient := by
    exact_mod_cast lt_pow_digitCount d.coefficient
  gcongr

theorem pow_le_value {d : Decimal} (h : d.coefficient ≠ 0) :
    10 ^ (digitCount d.coefficient + d.exponent - 1) ≤ d.value := by
  have hcount : 0 < digitCount d.coefficient := by
    rw [digitCount, if_neg h]; omega
  have hsplit : (digitCount d.coefficient : ℤ) + d.exponent - 1 =
      (digitCount d.coefficient - 1 : Nat) + d.exponent := by omega
  rw [hsplit, value, zpow_add₀ (by norm_num), zpow_natCast]
  have hcoefficient : (10 : ℚ) ^ (digitCount d.coefficient - 1) ≤ d.coefficient := by
    exact_mod_cast pow_digitCount_le h
  gcongr

theorem zpow_eq_tenTo (n : Nat) : (10 : ℚ) ^ (n : ℤ) = tenTo n := by
  rw [zpow_natCast, tenTo_eq, Nat.cast_pow, Nat.cast_ofNat]

theorem wordValue_infinityBits_le : wordValue infinityBits ≤ (10 : ℚ) ^ ((310 : Nat) : ℤ) := by
  have hnat : units infinityBits ≤ tenTo 310 * unitsInOne := by decide +kernel
  rw [wordValue, div_le_iff₀ unitsInOne_pos, zpow_eq_tenTo]
  exact_mod_cast hnat

theorem pow_lt_wordValue_one : 2 * (10 : ℚ) ^ (-((331 : Nat) : ℤ)) < wordValue 1 := by
  have hnat : 2 * unitsInOne < tenTo 331 := by decide +kernel
  have hpos : (0 : ℚ) < tenTo 331 := by exact_mod_cast tenTo_pos _
  rw [wordValue, units_of_lt (by decide), zpow_neg, zpow_eq_tenTo, ← div_eq_mul_inv,
    div_lt_div_iff₀ hpos unitsInOne_pos, Nat.cast_one, one_mul]
  exact_mod_cast hnat

theorem toFloat_isNearestDouble (negative : Bool) (d : Decimal) :
    IsNearestDouble negative d.value (d.toFloat negative) := by
  unfold toFloat
  simp only
  split_ifs with hzero hover hunder hwhole
  · refine ⟨0, isNearest_zero ?_, rfl⟩
    rw [value, hzero, Nat.cast_zero, zero_mul, mul_zero, ← wordValue_zero]
    exact wordValue_strictMono Nat.one_pos
  · refine ⟨infinityBits, isNearest_infinityBits ?_, rfl⟩
    calc wordValue infinityBits ≤ (10 : ℚ) ^ ((310 : Nat) : ℤ) := wordValue_infinityBits_le
      _ ≤ 10 ^ (digitCount d.coefficient + d.exponent - 1) :=
          zpow_le_zpow_right₀ (by norm_num) (by omega)
      _ ≤ d.value := pow_le_value hzero
  · refine ⟨0, isNearest_zero ?_, rfl⟩
    have hlt : d.value < (10 : ℚ) ^ (-((331 : Nat) : ℤ)) :=
      lt_of_lt_of_le d.value_lt_pow (zpow_le_zpow_right₀ (by norm_num) (by omega))
    linarith [pow_lt_wordValue_one]
  · obtain ⟨k, hk⟩ := Int.eq_ofNat_of_zero_le hwhole
    have hvalue : d.value = (d.coefficient * tenTo d.exponent.toNat : Nat) / (1 : Nat) := by
      rw [value, hk, zpow_natCast, Int.toNat_natCast, tenTo_eq]
      push_cast
      ring
    rw [hvalue]
    exact nearest_isNearestDouble _ _ Nat.one_pos
  · have hk : d.exponent = -((-d.exponent).toNat : ℤ) := by omega
    have hvalue : d.value = (d.coefficient : Nat) / (tenTo (-d.exponent).toNat : Nat) := by
      rw [value, div_eq_mul_inv, tenTo_eq]
      conv_lhs => rw [hk]
      rw [zpow_neg, zpow_natCast]
      push_cast
      ring
    rw [hvalue]
    exact nearest_isNearestDouble _ _ (tenTo_pos _)

end RecordCheck.Decimal
