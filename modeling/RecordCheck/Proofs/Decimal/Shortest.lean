import RecordCheck.Proofs.Binary64.Words
import RecordCheck.Proofs.Decimal.Value
import RecordCheck.Decimal.Shortest
set_option autoImplicit false

/-!
# Decimal: the shortest decimal reads back

The interval of a double holds the magnitudes that are rounded to it (`holds_iff_isNearest`).  On
the grid of seventeen digits it is wider than one step, so the search ends on a point of the
interval.
-/

namespace RecordCheck.Decimal

open Binary64

namespace Interval

/-- The magnitude `q` lies in the interval. -/
def Holds (i : Interval) (q : ℚ) : Prop :=
  if i.closed then i.low ≤ q * i.den ∧ q * i.den ≤ i.high
  else i.low < q * i.den ∧ q * i.den < i.high

/-- Counting in units of a power of ten multiplies the ends or the denominator. -/
theorem inUnits_eq (i : Interval) (power : Int) :
    ∃ a b : Nat, 0 < a ∧ 0 < b ∧ (10 : ℚ) ^ power = b / a ∧
      i.inUnits power = ⟨i.low * a, i.value * a, i.high * a, i.den * b, i.closed⟩ := by
  unfold inUnits
  by_cases h : 0 ≤ power
  · refine ⟨1, tenTo power.toNat, Nat.one_pos, tenTo_pos _, ?_, by simp [h]⟩
    rw [← zpow_eq_tenTo, Int.toNat_of_nonneg h, Nat.cast_one, div_one]
  · refine ⟨tenTo (-power).toNat, 1, tenTo_pos _, Nat.one_pos, ?_, by simp [h]⟩
    rw [← zpow_eq_tenTo, Int.toNat_of_nonneg (by omega), Nat.cast_one, zpow_neg, one_div, inv_inv]

theorem contains_iff {i : Interval} {n : Nat} : i.contains n = true ↔ i.Holds n := by
  rw [contains, Holds]
  cases i.closed
  · simp; norm_cast
  · simp; norm_cast

theorem contains_inUnits (i : Interval) (power : Int) (n : Nat) :
    (i.inUnits power).contains n = true ↔ i.Holds (n * 10 ^ power) := by
  obtain ⟨a, b, ha, -, hpower, heq⟩ := i.inUnits_eq power
  have ha' : (0 : ℚ) < a := by exact_mod_cast ha
  have hscale : (n * 10 ^ power * i.den : ℚ) = (n * (i.den * b) : Nat) / a := by
    rw [hpower]; push_cast; ring
  rw [heq, Holds, hscale, le_div_iff₀ ha', div_le_iff₀ ha', lt_div_iff₀ ha', div_lt_iff₀ ha']
  cases hclosed : i.closed <;> simp [contains] <;> norm_cast

/-- What is found lies in the interval; nothing is found if both neighbours of the value lie
outside. -/
theorem nearestInteger?_cases (tie : Tie) (i : Interval) :
    (i.nearestInteger? tie = none ∧ i.contains (i.value / i.den) = false ∧
      i.contains (i.value / i.den + 1) = false) ∨
    ∃ n, i.nearestInteger? tie = some n ∧ i.contains n = true := by
  unfold nearestInteger?
  simp only
  cases hbelow : i.contains (i.value / i.den) <;>
    cases habove : i.contains (i.value / i.den + 1)
  · exact .inl ⟨rfl, rfl, rfl⟩
  · exact .inr ⟨_, rfl, habove⟩
  · exact .inr ⟨_, rfl, hbelow⟩
  · right
    cases tie <;> simp only <;> split_ifs
    all_goals first | exact ⟨_, rfl, hbelow⟩ | exact ⟨_, rfl, habove⟩

/-- An interval that is longer than one contains an integer next to its value. -/
theorem exists_nearestInteger? (tie : Tie) {i : Interval} (hden : 0 < i.den)
    (hlow : i.low < i.value) (hhigh : i.value < i.high) (hlong : i.low + i.den < i.high) :
    ∃ n, i.nearestInteger? tie = some n := by
  rcases i.nearestInteger?_cases tie with ⟨-, hbelow, habove⟩ | ⟨n, hn, -⟩
  · -- Both neighbours outside would leave no room for the interval between them.
    have hsplit := Nat.div_add_mod i.value i.den
    have hlt := Nat.mod_lt i.value hden
    have hnext : (i.value / i.den + 1) * i.den = i.den * (i.value / i.den) + i.den := by ring
    have hthis : i.value / i.den * i.den = i.den * (i.value / i.den) := Nat.mul_comm ..
    simp only [contains, hnext, hthis] at hbelow habove
    split_ifs at hbelow habove <;> simp at hbelow habove <;> omega
  · exact ⟨n, hn⟩

end Interval

/-- The first grid with a point in the interval is found. -/
theorem search_eq (tie : Tie) (i : Interval) (power : Int) (grids : Nat)
    (h : ∃ k < grids, ∃ n, (i.inUnits (power - k)).nearestInteger? tie = some n) :
    ∃ k < grids, (∀ j < k, (i.inUnits (power - j)).nearestInteger? tie = none) ∧
      ∃ n, (i.inUnits (power - k)).nearestInteger? tie = some n ∧
        search tie i power grids = stripped ⟨n, power - k⟩ := by
  induction grids generalizing power with
  | zero => obtain ⟨k, hk, -⟩ := h; omega
  | succ grids ih =>
    rw [search]
    cases hfirst : (i.inUnits power).nearestInteger? tie with
    | some n => exact ⟨0, Nat.succ_pos _, by simp, n, by simpa using hfirst, by simp⟩
    | none =>
      obtain ⟨k, hk, n, hn⟩ := h
      obtain rfl | hpos := Nat.eq_zero_or_pos k
      · rw [Nat.cast_zero, sub_zero, hfirst] at hn
        cases hn
      · have hshift (j : Nat) : power - 1 - (j : Int) = power - (j + 1 : Nat) := by omega
        obtain ⟨j, hj, hnone, m, hm, heq⟩ := ih (power - 1) ⟨k - 1, by omega, n, by
          rw [hshift, Nat.sub_add_cancel hpos, hn]⟩
        rw [hshift] at hm heq
        refine ⟨j + 1, by omega, fun j' hj' => ?_, m, hm, heq⟩
        cases j' with
        | zero => rwa [Nat.cast_zero, sub_zero]
        | succ j' => rw [← hshift, hnone j' (Nat.lt_of_succ_lt_succ hj')]

/-- And so the search ends in the interval. -/
theorem search_holds (tie : Tie) (i : Interval) (power : Int) (grids : Nat)
    (h : ∃ k < grids, ∃ n, (i.inUnits (power - k)).nearestInteger? tie = some n) :
    i.Holds (search tie i power grids).value := by
  obtain ⟨k, -, -, n, hn, heq⟩ := search_eq tie i power grids h
  rcases (i.inUnits (power - k)).nearestInteger?_cases tie with ⟨hnone, -, -⟩ | ⟨m, hm, hmem⟩
  · rw [hnone] at hn
    cases hn
  · obtain rfl := Option.some.inj (hm.symm.trans hn)
    rw [heq, stripped_value, value]
    exact (i.contains_inUnits _ m).mp hmem

/-- The leading power is the power of ten below the value. -/
theorem Interval.pow_leadingPower_le {i : Interval} (hvalue : 0 < i.value) (hden : 0 < i.den) :
    (10 : ℚ) ^ i.leadingPower * i.den ≤ i.value := by
  unfold leadingPower
  split_ifs with h
  · have hquot : i.value / i.den ≠ 0 := (Nat.div_pos h hden).ne'
    have hcount : 0 < digitCount (i.value / i.den) := by
      rw [digitCount, if_neg hquot]; omega
    have hle := Nat.mul_le_mul_right i.den (pow_digitCount_le hquot)
    have hdiv := Nat.div_mul_le_self i.value i.den
    rw [show (digitCount (i.value / i.den) : ℤ) - 1 = (digitCount (i.value / i.den) - 1 : Nat) by
      omega, zpow_natCast]
    exact_mod_cast hle.trans hdiv
  · have hlt := lt_pow_digitCount ((i.den + i.value - 1) / i.value - 1)
    generalize digitCount ((i.den + i.value - 1) / i.value - 1) = count at *
    -- The quotient is the denominator over the value, rounded up.
    have hceil : i.den ≤ (i.den + i.value - 1) / i.value * i.value := by
      have := Nat.div_add_mod (i.den + i.value - 1) i.value
      have := Nat.mod_lt (i.den + i.value - 1) hvalue
      rw [Nat.mul_comm]; omega
    have hle : i.den ≤ 10 ^ count * i.value :=
      hceil.trans (Nat.mul_le_mul_right _ (by omega))
    have hpow : (0 : ℚ) < 10 ^ count := by positivity
    rw [zpow_neg, zpow_natCast, inv_mul_le_iff₀ hpow]
    exact_mod_cast hle

/-- The interval of a double in rational numbers. -/
theorem Interval.ofDouble_eq (significand : Nat) (exponent : Int) :
    ∃ unit den : Nat, 0 < unit ∧ 0 < den ∧ (2 : ℚ) ^ (exponent - 2) = unit / den ∧
      Interval.ofDouble significand exponent =
        ⟨(4 * significand - if significand = binade ∧ -1074 < exponent then 1 else 2) * unit,
          4 * significand * unit, (4 * significand + 2) * unit, den, significand % 2 = 0⟩ := by
  by_cases h : 2 ≤ exponent
  · refine ⟨twoTo (exponent - 2).toNat, 1, twoTo_pos _, Nat.one_pos, ?_, by simp [ofDouble, h]⟩
    rw [twoTo_cast, Int.toNat_of_nonneg (by omega), Nat.cast_one, div_one]
  · refine ⟨1, twoTo (2 - exponent).toNat, Nat.one_pos, twoTo_pos _, ?_, by simp [ofDouble, h]⟩
    rw [twoTo_cast, Int.toNat_of_nonneg (by omega), Nat.cast_one, one_div, ← zpow_neg, neg_sub]

theorem Interval.ofDouble_bounds {significand : Nat} (exponent : Int) (hpos : 0 < significand) :
    let i := Interval.ofDouble significand exponent
    0 < i.den ∧ 0 < i.low ∧ i.low < i.value ∧ i.value < i.high := by
  obtain ⟨unit, den, hunit, hden, -, heq⟩ := Interval.ofDouble_eq significand exponent
  rw [heq]
  refine ⟨hden, Nat.mul_pos ?_ hunit, Nat.mul_lt_mul_of_pos_right ?_ hunit,
    Nat.mul_lt_mul_of_pos_right (by omega) hunit⟩
  · split_ifs <;> omega
  · split_ifs <;> omega

/-- A step of the grid of the seventeenth digit is shorter than an interval whose length is more
than a part in `10 ^ 16` of its value, and so the grid has a point in the interval. -/
theorem exists_grid_of_wide (tie : Tie) {i : Interval} (hden : 0 < i.den) (hlow : i.low < i.value)
    (hhigh : i.value < i.high) (hwide : i.low * 10 ^ 16 + i.value < i.high * 10 ^ 16) :
    ∃ k < 17, ∃ n, (i.inUnits (i.leadingPower - (k : Nat))).nearestInteger? tie = some n := by
  refine ⟨16, by decide, ?_⟩
  obtain ⟨a, b, ha, hb, hpower, hscaled⟩ := i.inUnits_eq (i.leadingPower - (16 : Nat))
  have ha' : (0 : ℚ) < a := by exact_mod_cast ha
  have hstep : 10 ^ 16 * b * i.den ≤ i.value * a := by
    have hle := Interval.pow_leadingPower_le (Nat.zero_lt_of_lt hlow) hden
    rw [show i.leadingPower = (i.leadingPower - (16 : Nat)) + (16 : Nat) by ring,
      zpow_add₀ (by norm_num), hpower, zpow_natCast] at hle
    have hle' : (10 : ℚ) ^ 16 * (b : ℚ) * (i.den : ℚ) ≤ (i.value : ℚ) * (a : ℚ) := by
      calc (10 : ℚ) ^ 16 * (b : ℚ) * (i.den : ℚ)
          = (b : ℚ) / (a : ℚ) * 10 ^ 16 * (i.den : ℚ) * (a : ℚ) := by field_simp
        _ ≤ (i.value : ℚ) * (a : ℚ) := mul_le_mul_of_nonneg_right hle ha'.le
    exact_mod_cast hle'
  rw [hscaled]
  apply Interval.exists_nearestInteger?
  · exact Nat.mul_pos hden hb
  · exact Nat.mul_lt_mul_of_pos_right hlow ha
  · exact Nat.mul_lt_mul_of_pos_right hhigh ha
  · have := Nat.mul_lt_mul_of_pos_right hwide ha
    show i.low * a + i.den * b < i.high * a
    nlinarith

/-- Seventeen digits tell any two doubles apart. -/
theorem exists_grid (tie : Tie) {significand : Nat} (exponent : Int) (hpos : 0 < significand)
    (hlt : significand < 2 * binade) :
    ∃ k < 17, ∃ n, ((Interval.ofDouble significand exponent).inUnits
      ((Interval.ofDouble significand exponent).leadingPower - (k : Nat))).nearestInteger? tie =
        some n := by
  obtain ⟨unit, den, hunit, hden, -, heq⟩ := Interval.ofDouble_eq significand exponent
  rw [heq]
  generalize hgap : (if significand = binade ∧ -1074 < exponent then 1 else 2) = gap
  have hgap' : (gap = 1 ∧ significand = binade) ∨ gap = 2 := by
    split_ifs at hgap <;> omega
  apply exists_grid_of_wide
  · exact hden
  · exact Nat.mul_lt_mul_of_pos_right (by omega) hunit
  · exact Nat.mul_lt_mul_of_pos_right (by omega) hunit
  · have hwide : (4 * significand - gap) * 10 ^ 16 + 4 * significand <
        (4 * significand + 2) * 10 ^ 16 := by
      unfold binade at *; omega
    have := Nat.mul_lt_mul_of_pos_right hwide hunit
    show (4 * significand - gap) * unit * 10 ^ 16 + 4 * significand * unit <
      (4 * significand + 2) * unit * 10 ^ 16
    nlinarith

theorem shortest_holds (tie : Tie) {significand : Nat} (exponent : Int) (hpos : 0 < significand)
    (hlt : significand < 2 * binade) :
    (Interval.ofDouble significand exponent).Holds (shortest tie significand exponent).value :=
  search_holds tie _ _ 17 (exists_grid tie exponent hpos hlt)

theorem Interval.holds_iff {i : Interval} (hden : 0 < i.den) {q : ℚ} : i.Holds q ↔
    if i.closed then i.low / i.den ≤ q ∧ q ≤ i.high / i.den
    else i.low / i.den < q ∧ q < i.high / i.den := by
  have hden' : (0 : ℚ) < i.den := by exact_mod_cast hden
  rw [Holds, div_le_iff₀ hden', le_div_iff₀ hden', div_lt_iff₀ hden', lt_div_iff₀ hden']

/-- The interval of a double ends in the middles to the doubles next to it, and the ends belong to
it if its word is even. -/
theorem Interval.ofDouble_ends (before : Nat) :
    let i := Interval.ofDouble (significand (before + 1)) (power (before + 1))
    0 < i.den ∧ wordValue (before + 1) = i.value / i.den ∧
      wordValue before + wordValue (before + 1) = 2 * (i.low / i.den) ∧
      wordValue (before + 1) + wordValue (before + 1 + 1) = 2 * (i.high / i.den) ∧
      i.closed = decide ((before + 1) % 2 = 0) := by
  obtain ⟨unit, den, hunit, hden, hscale, heq⟩ :=
    Interval.ofDouble_eq (significand (before + 1)) (power (before + 1))
  have hsucc := wordValue_succ (before + 1)
  have hpred := wordValue_pred before
  have hvalue := wordValue_eq (before + 1)
  have hsig := significand_pos before.succ_pos
  have hparity := significand_mod_two (before + 1)
  rw [heq]
  generalize significand (before + 1) = s at *
  generalize power (before + 1) = e at *
  -- In quarters of the unit, the middles are the ends of the interval.
  have hquarter : (2 : ℚ) ^ e = 4 * (unit / den) := by
    rw [← hscale, show e = (e - 2) + 2 by ring, zpow_add₀ (by norm_num)]
    norm_num
    ring
  have hhalf : (2 : ℚ) ^ (e - 1) = 2 * (unit / den) := by
    rw [← hscale, show e - 1 = (e - 2) + 1 by ring, zpow_add_one₀ (by norm_num)]
    ring
  refine ⟨hden, ?_, ?_, ?_, by simp only [hparity]⟩
  · rw [hvalue, hquarter]
    push_cast
    ring
  · have hbefore : wordValue before = wordValue (before + 1) -
        (2 : ℚ) ^ (if s = binade ∧ -1074 < e then e - 1 else e) := by linarith
    rw [hbefore, hvalue]
    split_ifs
    · rw [hquarter, hhalf, Nat.cast_mul, Nat.cast_sub (by omega)]; push_cast; ring
    · rw [hquarter, Nat.cast_mul, Nat.cast_sub (by omega)]; push_cast; ring
  · rw [hsucc, hvalue, hquarter]
    push_cast
    ring

/-- The interval of a double holds what is rounded to it. -/
theorem holds_iff_isNearest {word : Nat} {q : ℚ} (hpos : 0 < word) (hlt : word < infinityBits) :
    (Interval.ofDouble (significand word) (power word)).Holds q ↔ IsNearest q word := by
  obtain ⟨before, rfl⟩ : ∃ before, before + 1 = word := ⟨word - 1, by omega⟩
  obtain ⟨hden, -, hlow, hhigh, hclosed⟩ := Interval.ofDouble_ends before
  rw [Interval.holds_iff hden, isNearest_iff_middles hlt, aboveMiddle_succ, BelowMiddle, hlow,
    hhigh, hclosed]
  simp only [mul_lt_mul_iff_right₀ (zero_lt_two' ℚ), mul_right_inj' (two_ne_zero' ℚ)]
  by_cases heven : (before + 1) % 2 = 0
  · simp [heven, le_iff_lt_or_eq]
  · simp [heven]

/-- The shortest decimal of a double reads back as the double. -/
theorem isNearest_shortest (tie : Tie) {word : Nat} (hpos : 0 < word) (hlt : word < infinityBits) :
    IsNearest (shortest tie (significand word) (power word)).value word :=
  (holds_iff_isNearest hpos hlt).1
    (shortest_holds tie _ (significand_pos hpos) (significand_lt word))

end RecordCheck.Decimal
