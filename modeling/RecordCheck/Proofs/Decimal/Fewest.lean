import RecordCheck.Decimal.Layout
import RecordCheck.Proofs.Decimal.Size
set_option autoImplicit false

/-!
# Decimal: the shortest decimal has the fewest digits

A decimal is the shortest of a double if it reads back as the double, no decimal with fewer digits
does, and of those with as many digits none is nearer to the double, and none as near is larger.
The search goes from the leading digit down and stops at the first grid with a point in the interval
of the double.  Main statements: what it finds is the shortest (`isShortest_shortest`), no other
decimal is (`IsShortest.unique`), and its leading power says whether the double is compared with the
powers of ten as one in the middle (`IsShortest.isMiddling_iff`).
-/

namespace RecordCheck.Decimal

open Binary64

/-! ## Which of two is preferred -/

/-- The magnitude `q` is nearer to `v` than `q'`, or as near and not smaller. -/
def Preferred (v q q' : ℚ) : Prop := |q - v| < |q' - v| ∨ |q - v| = |q' - v| ∧ q' ≤ q

namespace Preferred

variable {v q q' q'' : ℚ}

theorem trans (h : Preferred v q q') (h' : Preferred v q' q'') : Preferred v q q'' := by
  rcases h with h | ⟨h, hle⟩
  · rcases h' with h' | ⟨h', -⟩
    · exact .inl (h.trans h')
    · exact .inl (h' ▸ h)
  · rcases h' with h' | ⟨h', hle'⟩
    · exact .inl (h ▸ h')
    · exact .inr ⟨h.trans h', hle'.trans hle⟩

/-- The smaller of two magnitudes is preferred if the value is below their middle. -/
theorem smaller (h : q < q') (hmiddle : 2 * v < q + q') : Preferred v q q' := by
  rw [Preferred, abs_sub_comm, abs_sub_comm q']
  exact .inl ((nearer_smaller_iff h).2 hmiddle)

/-- The larger of two magnitudes is preferred if the value is not below their middle. -/
theorem larger (h : q < q') (hmiddle : q + q' ≤ 2 * v) : Preferred v q' q := by
  rw [Preferred, abs_sub_comm, abs_sub_comm q, nearer_larger_iff h, as_near_iff h]
  exact (lt_or_eq_of_le hmiddle).imp_right fun heq => ⟨heq, h.le⟩

/-- Of two magnitudes that are not above the value, the larger is preferred. -/
theorem of_le (h : q' ≤ q) (hq : q ≤ v) : Preferred v q q' := by
  rcases lt_or_eq_of_le h with hlt | rfl
  · exact larger hlt (by linarith)
  · exact .inr ⟨rfl, le_rfl⟩

/-- Of two magnitudes that are not below the value, the smaller is preferred. -/
theorem of_ge (hq : v ≤ q) (h : q ≤ q') : Preferred v q q' := by
  rcases lt_or_eq_of_le h with hlt | rfl
  · exact smaller hlt (by linarith)
  · exact .inr ⟨rfl, le_rfl⟩

theorem antisymm (h : Preferred v q q') (h' : Preferred v q' q) : q = q' := by
  rcases h with h | ⟨heq, hle⟩
  · rcases h' with h' | ⟨heq, -⟩
    · exact absurd h h'.not_gt
    · exact absurd h heq.le.not_gt
  · rcases h' with h' | ⟨-, hle'⟩
    · exact absurd h' heq.le.not_gt
    · exact le_antisymm hle' hle

theorem scale (h : Preferred v q q') {s : ℚ} (hs : 0 < s) :
    Preferred (v * s) (q * s) (q' * s) := by
  have habs (x : ℚ) : |x * s - v * s| = |x - v| * s := by
    rw [← sub_mul, abs_mul, abs_of_pos hs]
  rw [Preferred, habs, habs, mul_lt_mul_iff_of_pos_right hs, mul_le_mul_iff_of_pos_right hs]
  rcases h with h | ⟨h, hle⟩
  · exact .inl h
  · exact .inr ⟨by rw [h], hle⟩

end Preferred

/-! ## One grid -/

namespace Interval

variable {i : Interval}

/-- What lies between points of the interval lies in it. -/
theorem Holds.between {q q' x : ℚ} (h : i.Holds q) (h' : i.Holds q') (hle : q ≤ x)
    (hle' : x ≤ q') : i.Holds x := by
  have hden : (0 : ℚ) ≤ i.den := Nat.cast_nonneg _
  have hlow := mul_le_mul_of_nonneg_right hle hden
  have hhigh := mul_le_mul_of_nonneg_right hle' hden
  unfold Holds at *
  split_ifs at * with hclosed
  · exact ⟨h.1.trans hlow, hhigh.trans h'.2⟩
  · exact ⟨h.1.trans_le hlow, hhigh.trans_lt h'.2⟩

variable (hden : 0 < i.den) (hlow : i.low < i.value) (hhigh : i.value < i.high)

include hden hlow hhigh

theorem holds_value : i.Holds (i.value / i.den) := by
  have hden' : (i.den : ℚ) ≠ 0 := by exact_mod_cast hden.ne'
  have hlow' : (i.low : ℚ) < i.value := by exact_mod_cast hlow
  have hhigh' : (i.value : ℚ) < i.high := by exact_mod_cast hhigh
  rw [Holds, div_mul_cancel₀ _ hden']
  split_ifs
  · exact ⟨hlow'.le, hhigh'.le⟩
  · exact ⟨hlow', hhigh'⟩

/-- If an integer lies in the interval, one is found that is preferred to it. -/
theorem exists_preferred {n : Nat} (hn : i.Holds n) :
    ∃ m, i.nearestInteger? .up = some m ∧ Preferred (i.value / i.den) m n := by
  have hden' : (0 : ℚ) < i.den := by exact_mod_cast hden
  have hvalue := holds_value hden hlow hhigh
  have hfloor : i.value / i.den * i.den ≤ i.value := Nat.div_mul_le_self _ _
  have hnext : i.value < (i.value / i.den + 1) * i.den :=
    (Nat.div_lt_iff_lt_mul hden).1 (Nat.lt_succ_self _)
  unfold nearestInteger?
  simp only
  generalize i.value / i.den = b at *
  -- The value lies between the integer below it and the next.
  have hbelow : (b : ℚ) ≤ i.value / i.den := by
    rw [le_div_iff₀ hden']
    exact_mod_cast hfloor
  have habove : (i.value : ℚ) / i.den ≤ (b + 1 : Nat) := by
    rw [div_le_iff₀ hden']
    exact_mod_cast hnext.le
  have hmiddle : i.value - b * i.den < (b + 1) * i.den - i.value ↔
      2 * (i.value / i.den : ℚ) < b + (b + 1 : Nat) := by
    rw [mul_div_assoc', div_lt_iff₀ hden', add_mul (b : ℚ)]
    norm_cast
    omega
  have hstep : (b : ℚ) < (b + 1 : Nat) := by exact_mod_cast Nat.lt_succ_self b
  rcases Nat.lt_or_ge b n with hlt | hle
  · have hn' : ((b + 1 : Nat) : ℚ) ≤ n := by exact_mod_cast hlt
    have hpreferred := Preferred.of_ge habove hn'
    rw [contains_iff.2 (hvalue.between hn habove hn')]
    cases i.contains b with
    | false => exact ⟨b + 1, rfl, hpreferred⟩
    | true =>
      simp only
      split_ifs with hnear
      · exact ⟨b, rfl, (Preferred.smaller hstep (hmiddle.1 hnear)).trans hpreferred⟩
      · exact ⟨b + 1, rfl, hpreferred⟩
      · exact ⟨b + 1, rfl, hpreferred⟩
  · have hn' : (n : ℚ) ≤ b := by exact_mod_cast hle
    have hpreferred := Preferred.of_le hn' hbelow
    rw [contains_iff.2 (hn.between hvalue hn' hbelow)]
    cases i.contains (b + 1) with
    | false => exact ⟨b, rfl, hpreferred⟩
    | true =>
      have hlarger (hnear : ¬i.value - b * i.den < (b + 1) * i.den - i.value) :=
        (Preferred.larger hstep (not_lt.1 (mt hmiddle.2 hnear))).trans hpreferred
      simp only
      split_ifs with hnear
      · exact ⟨b, rfl, hpreferred⟩
      · exact ⟨b + 1, rfl, hlarger hnear⟩
      · exact ⟨b + 1, rfl, hlarger hnear⟩

/-- If a grid has a point in the interval, one is found that is preferred to it. -/
theorem exists_preferred_inUnits {power : Int} {n : Nat} (hn : i.Holds (n * 10 ^ power)) :
    ∃ m, (i.inUnits power).nearestInteger? .up = some m ∧
      Preferred (i.value / i.den) (m * 10 ^ power) (n * 10 ^ power) := by
  have hcontains := (i.contains_inUnits power n).2 hn
  obtain ⟨a, b, ha, hb, hpower, hscaled⟩ := i.inUnits_eq power
  rw [contains_iff, hscaled] at hcontains
  rw [hscaled]
  obtain ⟨m, hm, hpreferred⟩ := exists_preferred (Nat.mul_pos hden hb)
    (Nat.mul_lt_mul_of_pos_right hlow ha) (Nat.mul_lt_mul_of_pos_right hhigh ha) hcontains
  refine ⟨m, hm, ?_⟩
  have ha' : (0 : ℚ) < a := by exact_mod_cast ha
  have hb' : (0 : ℚ) < b := by exact_mod_cast hb
  have hden' : (i.den : ℚ) ≠ 0 := by exact_mod_cast hden.ne'
  have hvalue : ((i.value * a : Nat) : ℚ) / (i.den * b : Nat) * (b / a) = i.value / i.den := by
    push_cast
    field_simp
  rw [hpower, ← hvalue]
  exact hpreferred.scale (div_pos hb' ha')

end Interval

/-! ## Lengths -/

section

variable {d : Decimal}

theorem digits_length_pos (d : Decimal) : 0 < d.digits.length := Nat.length_toDigits_pos

/-- A decimal reaches a power of ten exactly if its leading power does. -/
theorem pow_le_value_iff (h : d.coefficient ≠ 0) {j : Int} :
    (10 : ℚ) ^ j ≤ d.value ↔ j ≤ d.leadingPower := by
  have hlow := pow_le_value h
  have hhigh := d.value_lt_pow
  have hlength : d.digits.length = digitCount d.coefficient := length_toDigits h
  rw [leadingPower, hlength]
  constructor
  · intro hle
    have hlt := hle.trans_lt hhigh
    rw [zpow_lt_zpow_iff_right₀ (by norm_num)] at hlt
    omega
  · intro hle
    exact (zpow_le_zpow_right₀ (by norm_num) (by omega)).trans hlow

end

/-- The digits of a grid, or the next power of ten, which has only one digit. -/
theorem length_digits_stripped_le {n k : Nat} (h : n ≤ 10 ^ (k + 1)) (power : Int) :
    (stripped ⟨n, power⟩).digits.length ≤ k + 1 := by
  refine Nat.toDigits_length 10 _ _ k.succ_pos ?_
  rcases lt_or_eq_of_le h with hlt | rfl
  · exact (stripped_coefficient_le _).trans_lt hlt
  · have hten : 10 ^ (k + 1) / 10 = 10 ^ k := by
      rw [pow_succ, Nat.mul_div_cancel _ (by decide)]
    have hmod : 10 ^ (k + 1) % 10 = 0 := by rw [pow_succ, Nat.mul_mod_left]
    rw [stripped, dif_neg (Nat.pow_pos (by decide)).ne', if_pos hmod, hten]
    exact (stripped_coefficient_le _).trans_lt (Nat.pow_lt_pow_right (by decide) k.lt_succ_self)

/-- A decimal is on each grid at or below its last digit. -/
theorem exists_on_grid (d : Decimal) {power : Int} (h : power ≤ d.exponent) :
    ∃ n : Nat, (n * 10 ^ power : ℚ) = d.value := by
  refine ⟨d.coefficient * 10 ^ (d.exponent - power).toNat, ?_⟩
  have hsplit : (10 : ℚ) ^ d.exponent = 10 ^ (d.exponent - power).toNat * 10 ^ power := by
    rw [← zpow_natCast, Int.toNat_of_nonneg (by omega), ← zpow_add₀ (by norm_num),
      Int.sub_add_cancel]
  rw [value, hsplit]
  push_cast
  ring

/-- A decimal that ends with no zero has the greatest exponent of those with its value. -/
theorem exponent_le_of_value_eq {d d' : Decimal} (h : d.value = d'.value)
    (hd' : d'.coefficient % 10 ≠ 0) : d.exponent ≤ d'.exponent := by
  by_contra hnot
  obtain ⟨n, hn⟩ := exists_on_grid d (show d'.exponent + 1 ≤ d.exponent by omega)
  have hten : (10 : ℚ) ^ d'.exponent ≠ 0 := by positivity
  have hcoefficient : ((n * 10 : Nat) : ℚ) = d'.coefficient := by
    apply mul_right_cancel₀ hten
    rw [show (d'.coefficient : ℚ) * 10 ^ d'.exponent = d.value from h.symm, ← hn,
      zpow_add_one₀ (by norm_num)]
    push_cast
    ring
  exact hd' (by rw [← Nat.cast_inj.1 hcoefficient, Nat.mul_mod_left])

/-! ## The search -/

namespace Interval

variable {i : Interval} (hden : 0 < i.den) (hlow : i.low < i.value) (hhigh : i.value < i.high)

include hden hlow hhigh

/-- A decimal of the interval that has not the leading power of the value is beyond a power of ten
on the grid of the leading power, which is preferred to it. -/
theorem leadingPower_eq_or {d : Decimal} (hd : d.coefficient ≠ 0) (h : i.Holds d.value) :
    d.leadingPower = i.leadingPower ∨ ∃ n : Nat, i.Holds (n * 10 ^ i.leadingPower) ∧
      Preferred (i.value / i.den) (n * 10 ^ i.leadingPower) d.value := by
  have hden' : (0 : ℚ) < i.den := by exact_mod_cast hden
  have hvalue := holds_value hden hlow hhigh
  have hlead : (10 : ℚ) ^ i.leadingPower ≤ i.value / i.den := by
    rw [le_div_iff₀ hden']
    exact pow_leadingPower_le (Nat.zero_lt_of_lt hlow) hden
  have hnext : (i.value : ℚ) / i.den < 10 ^ (i.leadingPower + 1) := by
    rw [div_lt_iff₀ hden']
    exact lt_pow_leadingPower (Nat.zero_lt_of_lt hlow) hden
  rcases lt_trichotomy d.leadingPower i.leadingPower with hlt | heq | hgt
  · have hbelow : d.value ≤ 10 ^ i.leadingPower := by
      by_contra hnot
      exact absurd ((pow_le_value_iff hd).1 (not_le.1 hnot).le) hlt.not_ge
    refine .inr ⟨1, ?_, ?_⟩
    · rw [Nat.cast_one, one_mul]
      exact h.between hvalue hbelow hlead
    · rw [Nat.cast_one, one_mul]
      exact .of_le hbelow hlead
  · exact .inl heq
  · have habove : (10 : ℚ) ^ (i.leadingPower + 1) ≤ d.value := (pow_le_value_iff hd).2 hgt
    have hten : ((10 : Nat) : ℚ) * 10 ^ i.leadingPower = 10 ^ (i.leadingPower + 1) := by
      rw [zpow_add_one₀ (by norm_num)]
      push_cast
      ring
    refine .inr ⟨10, ?_, ?_⟩
    · rw [hten]
      exact hvalue.between h hnext.le habove
    · rw [hten]
      exact .of_ge hnext.le habove

/-- Of the decimals in the interval, the search finds one with fewest digits, and with as many none
is preferred to it. -/
theorem search_fewest {grids : Nat}
    (hgrid : ∃ k < grids, ∃ n, (i.inUnits (i.leadingPower - k)).nearestInteger? .up = some n)
    {other : Decimal} (hother : other.coefficient ≠ 0) (h : i.Holds other.value) :
    let d := search .up i i.leadingPower grids
    d.digits.length < other.digits.length ∨ d.digits.length = other.digits.length ∧
      Preferred (i.value / i.den) d.value other.value := by
  intro d
  obtain ⟨k, -, hnone, n, hn, hd⟩ := search_eq .up i i.leadingPower grids hgrid
  have hlength : d.digits.length ≤ k + 1 := by
    rw [show d = stripped ⟨n, i.leadingPower - k⟩ from hd]
    exact length_digits_stripped_le
      (le_pow_of_nearestInteger? (Nat.zero_lt_of_lt hlow) hden hn) _
  have hvalue : d.value = n * 10 ^ (i.leadingPower - k) := by
    rw [show d = stripped ⟨n, i.leadingPower - k⟩ from hd, stripped_value, Decimal.value]
  have hone := digits_length_pos other
  -- No point of the interval is on a grid above, and what is found is preferred on its own grid.
  have hgrids {j : Nat} (hj : j ≤ k) {m : Nat} (hm : i.Holds (m * 10 ^ (i.leadingPower - j))) :
      j = k ∧ Preferred (i.value / i.den) d.value (m * 10 ^ (i.leadingPower - j)) := by
    obtain ⟨m', hm', hpreferred⟩ := exists_preferred_inUnits hden hlow hhigh hm
    rcases lt_or_eq_of_le hj with hlt | rfl
    · rw [hnone j hlt] at hm'
      cases hm'
    · obtain rfl := Option.some.inj (hn.symm.trans hm')
      exact ⟨rfl, hvalue ▸ hpreferred⟩
  rcases leadingPower_eq_or hden hlow hhigh hother h with hlead | ⟨m, hm, hpreferred⟩
  · rw [Decimal.leadingPower] at hlead
    rcases Nat.lt_or_ge (k + 1) other.digits.length with hlong | hshort
    · exact .inl (by omega)
    · obtain ⟨m, hm⟩ := exists_on_grid other
        (show i.leadingPower - (other.digits.length - 1 : Nat) ≤ other.exponent by omega)
      obtain ⟨hk, hpreferred⟩ := hgrids (show other.digits.length - 1 ≤ k by omega) (hm ▸ h)
      rw [hm] at hpreferred
      exact (lt_or_eq_of_le (by omega)).imp_right fun heq => ⟨heq, hpreferred⟩
  · obtain ⟨rfl, hfirst⟩ := hgrids k.zero_le (by simpa using hm)
    have hfirst' : Preferred (i.value / i.den) d.value (m * 10 ^ i.leadingPower) := by
      simpa using hfirst
    exact (lt_or_eq_of_le (by omega)).imp_right fun heq => ⟨heq, hfirst'.trans hpreferred⟩

end Interval

/-! ## The shortest decimal -/

/-- The decimal is rounded to the word.  Any other one that is has more digits, or it has as many
and this one is preferred to it. -/
structure IsShortest (d : Decimal) (word : Nat) : Prop where
  nearest : IsNearest d.value word
  fewest : ∀ other : Decimal, IsNearest other.value word →
    d.digits.length < other.digits.length ∨
      d.digits.length = other.digits.length ∧ Preferred (wordValue word) d.value other.value

/-- The decimal that is found for a double is the shortest. -/
theorem isShortest_shortest {word : Nat} (hpos : 0 < word) (hlt : word < infinityBits) :
    IsShortest (shortest .up (significand word) (power word)) word := by
  refine ⟨isNearest_shortest .up hpos hlt, fun other hother => ?_⟩
  obtain ⟨hcoefficient, -, -⟩ := leadingPower_bounds hpos hlt hother
  obtain ⟨hden, -, hlow, hhigh⟩ := Interval.ofDouble_bounds (power word) (significand_pos hpos)
  obtain ⟨before, rfl⟩ : ∃ before, before + 1 = word := ⟨word - 1, by omega⟩
  obtain ⟨-, hvalue, -⟩ := Interval.ofDouble_ends before
  rw [hvalue]
  exact Interval.search_fewest hden hlow hhigh
    (exists_grid .up _ (significand_pos hpos) (significand_lt _)) hcoefficient
    ((holds_iff_isNearest hpos hlt).2 hother)

namespace IsShortest

variable {d d' : Decimal} {word : Nat}

/-- The last digit is no zero: without it the decimal would be shorter. -/
theorem coefficient_mod_ten (h : IsShortest d word) (hd : d.coefficient ≠ 0) :
    d.coefficient % 10 ≠ 0 := by
  intro hten
  have hvalue : (⟨d.coefficient / 10, d.exponent + 1⟩ : Decimal).value = d.value := by
    rw [← stripped_value d, ← stripped_value ⟨_, _⟩, stripped.eq_def d, dif_neg hd, if_pos hten]
  have hlength : digitCount d.coefficient = digitCount (d.coefficient / 10) + 1 := by
    rw [digitCount, if_neg hd]
  have hquot : d.coefficient / 10 ≠ 0 := by omega
  have hfewest := h.fewest _ (hvalue ▸ h.nearest)
  rw [digits, digits, length_toDigits hd, length_toDigits hquot] at hfewest
  omega

/-- A double has one shortest decimal. -/
theorem unique (hpos : 0 < word) (hlt : word < infinityBits) (h : IsShortest d word)
    (h' : IsShortest d' word) : d = d' := by
  obtain ⟨hd, -, -⟩ := leadingPower_bounds hpos hlt h.nearest
  obtain ⟨hd', -, -⟩ := leadingPower_bounds hpos hlt h'.nearest
  have hfirst := h.fewest d' h'.nearest
  have hsecond := h'.fewest d h.nearest
  have hlength : d.digits.length = d'.digits.length := by omega
  have hvalue : d.value = d'.value :=
    (hfirst.resolve_left hlength.not_lt).2.antisymm (hsecond.resolve_left hlength.not_gt).2
  have hpower : d.leadingPower = d'.leadingPower := by
    apply le_antisymm
    · exact (pow_le_value_iff hd').1 (hvalue ▸ (pow_le_value_iff hd).2 le_rfl)
    · exact (pow_le_value_iff hd).1 (hvalue ▸ (pow_le_value_iff hd').2 le_rfl)
  obtain ⟨coefficient, exponent⟩ := d
  obtain ⟨coefficient', exponent'⟩ := d'
  obtain rfl : exponent = exponent' := by
    simp only [leadingPower, hlength] at hpower
    omega
  have hten : (10 : ℚ) ^ exponent ≠ 0 := by positivity
  have hcoefficient : (coefficient : ℚ) = coefficient' := mul_right_cancel₀ hten hvalue
  rw [Nat.cast_inj.1 hcoefficient]

/-- The leading power reaches `j` exactly if the double reaches the one nearest to `10 ^ j`, where
that is not below `10 ^ j`.  The double itself is written `10 ^ j`, since one digit suffices. -/
theorem le_leadingPower_iff (h : IsShortest d word) (hd : d.coefficient ≠ 0) {j : Int} {u : Nat}
    (hu : IsNearest (10 ^ j) u) (hle : (10 : ℚ) ^ j ≤ wordValue u) :
    j ≤ d.leadingPower ↔ u ≤ word := by
  rw [← pow_le_value_iff hd]
  refine ⟨hu.mono h.nearest, fun hword => ?_⟩
  by_contra hnot
  rw [not_le] at hnot
  obtain rfl := le_antisymm hword (h.nearest.mono hu hnot.le)
  have hpower : (⟨1, j⟩ : Decimal).value = 10 ^ j := by rw [value, Nat.cast_one, one_mul]
  rcases h.fewest ⟨1, j⟩ (hpower ▸ hu) with hless | ⟨-, hpreferred⟩
  · have hone : (⟨1, j⟩ : Decimal).digits.length = 1 :=
      congrArg List.length (Nat.toDigits_of_lt_base (show 1 < 10 by decide))
    have hd := digits_length_pos d
    omega
  · rw [hpower] at hpreferred
    exact hnot.ne (hpreferred.antisymm (.of_le hnot.le hle))

end IsShortest

/-! ## Magnitudes in the middle -/

/-- The word of the double nearest to `10 ^ -4`. -/
def lowMark : Nat := nearestBits 1 (tenTo 4)

/-- The word of the double nearest to `10 ^ 16`. -/
def highMark : Nat := nearestBits (tenTo 16) 1

theorem isNearest_lowMark : IsNearest (10 ^ (-4 : ℤ)) lowMark := by
  have hnearest := @nearestBits_isNearest 1 (tenTo 4) (tenTo_pos 4)
  rwa [Nat.cast_one, one_div, ← zpow_eq_tenTo, ← zpow_neg] at hnearest

theorem isNearest_highMark : IsNearest (10 ^ (16 : ℤ)) highMark := by
  have hnearest := @nearestBits_isNearest (tenTo 16) 1 Nat.one_pos
  rwa [Nat.cast_one, div_one, ← zpow_eq_tenTo] at hnearest

theorem pow_le_lowMark : (10 : ℚ) ^ (-4 : ℤ) ≤ wordValue lowMark := by
  have hnat : unitsInOne ≤ units lowMark * tenTo 4 := by decide +kernel
  have hten : (0 : ℚ) < tenTo 4 := by exact_mod_cast tenTo_pos 4
  rw [wordValue, zpow_neg, show (4 : ℤ) = (4 : Nat) from rfl, zpow_eq_tenTo, inv_eq_one_div,
    div_le_div_iff₀ hten unitsInOne_pos, one_mul]
  exact_mod_cast hnat

theorem pow_le_highMark : (10 : ℚ) ^ (16 : ℤ) ≤ wordValue highMark := by
  have hnat : tenTo 16 * unitsInOne ≤ units highMark := by decide +kernel
  rw [wordValue, show (16 : ℤ) = (16 : Nat) from rfl, zpow_eq_tenTo, le_div_iff₀ unitsInOne_pos]
  exact_mod_cast hnat

/-- A double reaches a power of ten exactly if it reaches the double nearest to it, where that is
not below the power. -/
theorem pow_le_wordValue_iff {j : Int} {u word : Nat} (hu : IsNearest (10 ^ j) u)
    (hle : (10 : ℚ) ^ j ≤ wordValue u) (hword : word ≤ infinityBits) :
    (10 : ℚ) ^ j ≤ wordValue word ↔ u ≤ word :=
  ⟨hu.mono (isNearest_wordValue hword), fun h => hle.trans (wordValue_strictMono.monotone h)⟩

/-- No double lies between `10 ^ -4` and the double nearest to it, nor between `10 ^ 16` and the
double nearest to that. -/
theorem isMiddling_iff_marks {word : Nat} (hword : word ≤ infinityBits) :
    isMiddling (significand word) (power word) = true ↔ lowMark ≤ word ∧ word < highMark := by
  have hden : (0 : ℚ) < twoTo (-power word).toNat := by exact_mod_cast twoTo_pos _
  have hvalue : wordValue word =
      (significand word * twoTo (power word).toNat : Nat) / twoTo (-power word).toNat := by
    rw [wordValue_eq, eq_div_iff hden.ne', Nat.cast_mul, twoTo_cast, twoTo_cast, mul_assoc,
      ← zpow_add₀ (by norm_num)]
    congr 2
    omega
  have hfour : (0 : ℚ) < tenTo 4 := by exact_mod_cast tenTo_pos 4
  rw [← not_le, ← pow_le_wordValue_iff isNearest_lowMark pow_le_lowMark hword,
    ← pow_le_wordValue_iff isNearest_highMark pow_le_highMark hword, not_le, hvalue, zpow_neg,
    show (4 : ℤ) = (4 : Nat) from rfl, show (16 : ℤ) = (16 : Nat) from rfl, zpow_eq_tenTo,
    zpow_eq_tenTo, inv_eq_one_div, div_le_div_iff₀ hfour hden, one_mul, div_lt_iff₀ hden]
  simp only [isMiddling, Bool.and_eq_true, decide_eq_true_eq]
  norm_cast

/-- A double lies in the middle exactly if the leading power of its shortest decimal is from -4
to 15. -/
theorem IsShortest.isMiddling_iff {d : Decimal} {word : Nat} (h : IsShortest d word)
    (hpos : 0 < word) (hlt : word < infinityBits) :
    isMiddling (significand word) (power word) = true ↔
      -4 ≤ d.leadingPower ∧ d.leadingPower ≤ 15 := by
  obtain ⟨hd, -, -⟩ := leadingPower_bounds hpos hlt h.nearest
  rw [isMiddling_iff_marks hlt.le, ← not_le,
    ← h.le_leadingPower_iff hd isNearest_lowMark pow_le_lowMark,
    ← h.le_leadingPower_iff hd isNearest_highMark pow_le_highMark]
  omega

end RecordCheck.Decimal
