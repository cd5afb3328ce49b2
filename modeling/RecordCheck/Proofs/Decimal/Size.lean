import RecordCheck.Proofs.Decimal.Shortest
set_option autoImplicit false

/-!
# Decimal: how large the shortest decimal is

The search starts at the leading digit of a double and goes at most seventeen digits far, so that
the coefficient is at most `10 ^ 17` (`shortest_coefficient_le`), and the magnitudes of doubles
bound the power of ten (`leadingPower_bounds`).
-/

namespace RecordCheck.Decimal

open Binary64

theorem length_toDigits {n : Nat} (hn : n ≠ 0) : (Nat.toDigits 10 n).length = digitCount n := by
  induction n using digitCount.induct with
  | case1 => exact absurd rfl hn
  | case2 n _ ih =>
    rw [digitCount, if_neg hn]
    by_cases hsmall : n < 10
    · rw [Nat.toDigits_of_lt_base hsmall, Nat.div_eq_of_lt hsmall]
      simp [digitCount]
    · rw [Nat.toDigits_of_base_le (by decide) (by omega), List.length_append, ih (by omega)]
      rfl

theorem stripped_coefficient_le (d : Decimal) : d.stripped.coefficient ≤ d.coefficient := by
  induction d using stripped.induct with
  | case1 d h => rw [stripped, dif_pos h]
  | case2 d h hten ih =>
    rw [stripped, dif_neg h, if_pos hten]
    exact ih.trans (Nat.div_le_self _ _)
  | case3 d h hten => rw [stripped, dif_neg h, if_neg hten]

namespace Interval

/-- The value lies below the next power of ten. -/
theorem lt_pow_leadingPower {i : Interval} (hvalue : 0 < i.value) (hden : 0 < i.den) :
    (i.value : ℚ) < 10 ^ (i.leadingPower + 1) * i.den := by
  unfold leadingPower
  split_ifs with h
  · have hlt := lt_pow_digitCount (i.value / i.den)
    generalize digitCount (i.value / i.den) = count at *
    have hle : (i.value / i.den + 1) * i.den ≤ 10 ^ count * i.den := Nat.mul_le_mul_right _ hlt
    have hfloor : i.value < (i.value / i.den + 1) * i.den := by
      rw [Nat.mul_comm]
      exact Nat.lt_mul_div_succ _ hden
    rw [sub_add_cancel, zpow_natCast]
    exact_mod_cast hfloor.trans_le hle
  · -- The denominator over the value, rounded up, is more than one, and more than a power of ten.
    have hceil : i.value * ((i.den + i.value - 1) / i.value - 1) < i.den := by
      have := Nat.mul_div_le (i.den + i.value - 1) i.value
      rw [Nat.mul_sub, Nat.mul_one]
      omega
    have hone : 2 ≤ (i.den + i.value - 1) / i.value := by
      rw [Nat.le_div_iff_mul_le hvalue]
      omega
    have hpow := pow_digitCount_le (show (i.den + i.value - 1) / i.value - 1 ≠ 0 by omega)
    have hpos : 0 < digitCount ((i.den + i.value - 1) / i.value - 1) := by
      rw [digitCount, if_neg (by omega)]
      omega
    generalize digitCount ((i.den + i.value - 1) / i.value - 1) = count at *
    obtain ⟨count, rfl⟩ := Nat.exists_eq_succ_of_ne_zero hpos.ne'
    have hlt : i.value * 10 ^ count < i.den := lt_of_le_of_lt (Nat.mul_le_mul_left _ hpow) hceil
    have hexponent : -((count.succ : Nat) : Int) + 1 = -(count : Int) := by
      push_cast
      ring
    rw [hexponent, zpow_neg, zpow_natCast, inv_mul_eq_div, lt_div_iff₀ (by positivity)]
    exact_mod_cast hlt

theorem le_of_nearestInteger? {tie : Tie} {i : Interval} {n : Nat}
    (h : i.nearestInteger? tie = some n) : n ≤ i.value / i.den + 1 := by
  unfold nearestInteger? at h
  simp only at h
  split at h
  · exact nomatch h
  · obtain rfl := Option.some.inj h
    exact Nat.le_succ _
  · obtain rfl := Option.some.inj h
    exact le_rfl
  · cases tie
    all_goals
      simp only at h
      split_ifs at h
      all_goals
        obtain rfl := Option.some.inj h
        omega

/-- On the grid `k` powers of ten below the leading one, `k + 1` digits are found, or the next power
of ten. -/
theorem le_pow_of_nearestInteger? {tie : Tie} {i : Interval} (hvalue : 0 < i.value)
    (hden : 0 < i.den) {k n : Nat}
    (h : (i.inUnits (i.leadingPower - k)).nearestInteger? tie = some n) : n ≤ 10 ^ (k + 1) := by
  obtain ⟨a, b, ha, hb, hpower, hscaled⟩ := i.inUnits_eq (i.leadingPower - (k : Nat))
  have hle := le_of_nearestInteger? h
  rw [hscaled] at hle
  simp only at hle
  have ha' : (0 : ℚ) < a := by exact_mod_cast ha
  have hlt := lt_pow_leadingPower hvalue hden
  rw [show i.leadingPower + 1 = (i.leadingPower - (k : Nat)) + (k + 1 : Nat) by push_cast; ring,
    zpow_add₀ (by norm_num), hpower, zpow_natCast] at hlt
  have hscaled' : i.value * a < 10 ^ (k + 1) * (i.den * b) := by
    have hlt' : (i.value : ℚ) * a < 10 ^ (k + 1) * (i.den * b) := by
      calc (i.value : ℚ) * a < (b / a * 10 ^ (k + 1) * i.den) * a :=
            mul_lt_mul_of_pos_right hlt ha'
        _ = 10 ^ (k + 1) * (i.den * b) := by field_simp
    exact_mod_cast hlt'
  have hquot := (Nat.div_lt_iff_lt_mul (Nat.mul_pos hden hb)).2 hscaled'
  omega

end Interval

theorem shortest_coefficient_le (tie : Tie) {significand : Nat} (exponent : Int)
    (hpos : 0 < significand) (hlt : significand < 2 * binade) :
    (shortest tie significand exponent).coefficient ≤ 10 ^ 17 := by
  obtain ⟨k, hk, -, n, hn, heq⟩ := search_eq tie _ _ 17 (exists_grid tie exponent hpos hlt)
  obtain ⟨hden, -, hlow, -⟩ := Interval.ofDouble_bounds exponent hpos
  have hpow : 10 ^ (k + 1) ≤ 10 ^ 17 := Nat.pow_le_pow_right (by decide) (by omega)
  rw [shortest]
  rw [heq]
  exact (stripped_coefficient_le _).trans
    ((Interval.le_pow_of_nearestInteger? (Nat.zero_lt_of_lt hlow) hden hn).trans hpow)

/-! ## Powers of ten -/

theorem value_eq_zero {d : Decimal} (h : d.coefficient = 0) : d.value = 0 := by
  rw [value, h, Nat.cast_zero, zero_mul]

/-- What is rounded to a double that is neither zero nor infinite has a power of ten of at most
three digits. -/
theorem leadingPower_bounds {d : Decimal} {word : Nat} (hpos : 0 < word) (hlt : word < infinityBits)
    (h : IsNearest d.value word) :
    d.coefficient ≠ 0 ∧ -331 ≤ d.leadingPower ∧ d.leadingPower < 310 := by
  have hsmall : wordValue 1 ≤ 2 * d.value := by
    by_contra hnot
    exact hpos.ne' (h.unique (isNearest_zero (not_le.1 hnot)))
  have hlarge : d.value < wordValue infinityBits := by
    by_contra hnot
    exact hlt.ne (h.unique (isNearest_infinityBits (not_lt.1 hnot)))
  have hone := pow_lt_wordValue_one
  have hcoefficient : d.coefficient ≠ 0 := by
    intro hzero
    have hpow : (0 : ℚ) < 10 ^ (-((331 : Nat) : ℤ)) := by positivity
    rw [value_eq_zero hzero] at hsmall
    linarith
  have hlength : d.digits.length = digitCount d.coefficient := length_toDigits hcoefficient
  have hlow := pow_le_value hcoefficient
  have hhigh := d.value_lt_pow
  have hlow' : (10 : ℚ) ^ (digitCount d.coefficient + d.exponent - 1) < 10 ^ (310 : ℤ) :=
    (hlow.trans_lt hlarge).trans_le wordValue_infinityBits_le
  have hhigh' : (10 : ℚ) ^ (-331 : ℤ) < 10 ^ (digitCount d.coefficient + d.exponent) := by
    have : (10 : ℚ) ^ (-((331 : Nat) : ℤ)) < d.value := by linarith
    exact this.trans hhigh
  rw [zpow_lt_zpow_iff_right₀ (by norm_num)] at hlow' hhigh'
  refine ⟨hcoefficient, ?_, ?_⟩
  · rw [leadingPower, hlength]
    omega
  · rw [leadingPower, hlength]
    omega

end RecordCheck.Decimal
