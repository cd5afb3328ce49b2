import Mathlib
import RecordCheck.Binary64.Nearest
set_option autoImplicit false

/-!
# Binary64: the nearest double

A word without sign counts magnitudes in order; `wordValue` is the rational that it stands for, and
the word of the infinity the one where the next binade would begin.  `IsNearest q word` says,
without any rounding, that no other word is nearer to `q`, and of two equally near ones the even one
is meant.  Main statement: `nearestBits_isNearest`, the rounding of fractions finds that word.
-/

namespace RecordCheck

theorem twoTo_eq (n : Nat) : twoTo n = 2 ^ n := rfl

theorem tenTo_eq (n : Nat) : tenTo n = 10 ^ n := rfl

theorem twoTo_pos (n : Nat) : 0 < twoTo n := Nat.pow_pos (by decide)

theorem tenTo_pos (n : Nat) : 0 < tenTo n := Nat.pow_pos (by decide)

theorem twoTo_succ (n : Nat) : twoTo (n + 1) = 2 * twoTo n := by
  simp only [twoTo_eq, pow_succ]; omega

namespace Binary64

/-- The magnitude that a word without sign stands for, in units of `2 ^ -1074`.  The word of the
infinity counts as the power of two above the largest double, which is how rounding treats it. -/
def units (word : Nat) : Nat :=
  if word / binade = 0 then word
  else (binade + word % binade) * twoTo (word / binade - 1)

theorem units_of_lt {word : Nat} (h : word < binade) : units word = word := by
  simp [units, Nat.div_eq_of_lt h]

theorem units_of_power {power fraction : Nat} (h : fraction < binade) :
    units ((power + 1) * binade + fraction) = (binade + fraction) * twoTo power := by
  have hdiv : ((power + 1) * binade + fraction) / binade = power + 1 := by
    unfold binade at *; omega
  have hmod : ((power + 1) * binade + fraction) % binade = fraction := by
    unfold binade at *; omega
  simp only [units, hdiv, hmod, Nat.add_one_ne_zero, if_false, Nat.add_sub_cancel]

/-- A word lies below the normal range, or is a power and a fraction. -/
theorem word_cases (word : Nat) :
    word < binade ∨
      ∃ power fraction, fraction < binade ∧ word = (power + 1) * binade + fraction := by
  rcases Nat.lt_or_ge word binade with h | h
  · exact .inl h
  · refine .inr ⟨word / binade - 1, word % binade, Nat.mod_lt _ (by decide), ?_⟩
    unfold binade at *; omega

/-- A significand scaled by a binade's unit. -/
theorem units_scaled {power m : Nat} (hlow : power = 0 ∨ binade ≤ m) (hhigh : m ≤ 2 * binade) :
    units (power * binade + m) = m * twoTo power := by
  rcases Nat.lt_or_ge m binade with hm | hm
  · have hp : power = 0 := by omega
    rw [hp, Nat.zero_mul, Nat.zero_add, units_of_lt hm]
    simp [twoTo_eq]
  · obtain ⟨k, rfl⟩ := Nat.exists_eq_add_of_le hm
    rcases Nat.lt_or_ge k binade with hk | hk
    · have hword : power * binade + (binade + k) = (power + 1) * binade + k := by ring
      rw [hword, units_of_power hk]
    · have hk2 : k = binade := by omega
      subst hk2
      have hword : power * binade + (binade + binade) = (power + 1 + 1) * binade + 0 := by ring
      rw [hword, units_of_power (by decide), twoTo_succ]
      ring

/-- From a word to the next the magnitude grows by the unit of the word's binade. -/
theorem units_succ (power m : Nat) (hlow : power = 0 ∨ binade ≤ m) (hhigh : m < 2 * binade) :
    units (power * binade + m + 1) = units (power * binade + m) + twoTo power := by
  rw [units_scaled hlow (by omega), Nat.add_assoc, units_scaled (by omega) (by omega)]
  ring

theorem units_strictMono : StrictMono units := by
  apply strictMono_nat_of_lt_succ
  intro word
  rcases word_cases word with h | ⟨power, fraction, h, rfl⟩
  · have hsucc := units_succ 0 word (.inl rfl) (by omega)
    have := twoTo_pos 0
    simp only [Nat.zero_mul, Nat.zero_add] at hsucc
    omega
  · have hsucc := units_succ power (binade + fraction) (by omega) (by omega)
    have hword : (power + 1) * binade + fraction = power * binade + (binade + fraction) := by ring
    have := twoTo_pos power
    rw [hword]
    omega

/-- The number of units in one. -/
def unitsInOne : Nat := twoTo 1074

theorem unitsInOne_pos : (0 : ℚ) < unitsInOne := by
  exact_mod_cast twoTo_pos 1074

/-- The magnitude that a word without sign stands for. -/
def wordValue (word : Nat) : ℚ := units word / unitsInOne

theorem wordValue_strictMono : StrictMono wordValue := by
  intro u w h
  have hunits : (units u : ℚ) < units w := by exact_mod_cast units_strictMono h
  exact div_lt_div_of_pos_right hunits unitsInOne_pos

/-- No word up to the infinity stands for a magnitude nearer to `q`, and one as near only if this
word is even. -/
def IsNearest (q : ℚ) (word : Nat) : Prop :=
  word ≤ infinityBits ∧ ∀ other ≤ infinityBits, other ≠ word →
    |q - wordValue word| < |q - wordValue other| ∨
      (|q - wordValue word| = |q - wordValue other| ∧ word % 2 = 0)

/-- The bound on the side of the smaller words: `q` is not below the middle of the way to the word
before. -/
def AboveMiddle (q : ℚ) (word : Nat) : Prop :=
  ∀ before, before + 1 = word →
    wordValue before + wordValue word < 2 * q ∨
      (wordValue before + wordValue word = 2 * q ∧ word % 2 = 0)

/-- The bound on the side of the larger words. -/
def BelowMiddle (q : ℚ) (word : Nat) : Prop :=
  2 * q < wordValue word + wordValue (word + 1) ∨
    (2 * q = wordValue word + wordValue (word + 1) ∧ word % 2 = 0)

section

variable {q a b : ℚ} (h : a < b)

include h

/-- The middle parts what is nearer to the larger of two magnitudes from what is nearer to the
smaller. -/
theorem nearer_larger_iff : |q - b| < |q - a| ↔ a + b < 2 * q := by
  rw [← sq_lt_sq]
  constructor
  · intro hlt
    nlinarith
  · intro hlt
    nlinarith

theorem nearer_smaller_iff : |q - a| < |q - b| ↔ 2 * q < a + b := by
  rw [← sq_lt_sq]
  constructor
  · intro hlt
    nlinarith
  · intro hlt
    nlinarith

theorem as_near_iff : |q - b| = |q - a| ↔ a + b = 2 * q := by
  rw [← sq_eq_sq_iff_abs_eq_abs]
  constructor
  · intro heq
    nlinarith
  · intro heq
    rw [show q = (a + b) / 2 by linarith]
    ring

end

theorem isNearest_of_middles {q : ℚ} {word : Nat} (hword : word ≤ infinityBits)
    (hlow : AboveMiddle q word) (hhigh : word < infinityBits → BelowMiddle q word) :
    IsNearest q word := by
  refine ⟨hword, fun other hother hne => ?_⟩
  rcases Nat.lt_or_gt_of_ne hne with h | h
  · obtain ⟨before, rfl⟩ : ∃ before, before + 1 = word := ⟨word - 1, by omega⟩
    have hmono : wordValue other ≤ wordValue before := wordValue_strictMono.monotone (by omega)
    rw [nearer_larger_iff (wordValue_strictMono h), as_near_iff (wordValue_strictMono h)]
    rcases hlow before rfl with hlt | ⟨heq, heven⟩
    · exact .inl (by linarith)
    · exact (lt_or_eq_of_le (by linarith)).imp_right fun heq => ⟨heq, heven⟩
  · have hmono : wordValue (word + 1) ≤ wordValue other := wordValue_strictMono.monotone (by omega)
    rw [nearer_smaller_iff (wordValue_strictMono h), eq_comm, as_near_iff (wordValue_strictMono h)]
    rcases hhigh (by omega) with hlt | ⟨heq, heven⟩
    · exact .inl (by linarith)
    · exact (lt_or_eq_of_le (by linarith)).imp_right fun heq => ⟨heq.symm, heven⟩

theorem IsNearest.aboveMiddle {q : ℚ} {word : Nat} (h : IsNearest q word) : AboveMiddle q word := by
  rintro before rfl
  have hstep := wordValue_strictMono (Nat.lt_succ_self before)
  rcases h.2 before (by have := h.1; omega) (by omega) with hnear | ⟨heq, heven⟩
  · exact .inl ((nearer_larger_iff hstep).1 hnear)
  · exact .inr ⟨(as_near_iff hstep).1 heq, heven⟩

theorem IsNearest.belowMiddle {q : ℚ} {word : Nat} (h : IsNearest q word)
    (hlt : word < infinityBits) : BelowMiddle q word := by
  have hstep : wordValue word < wordValue (word + 1) := wordValue_strictMono (Nat.lt_succ_self _)
  rcases h.2 (word + 1) hlt (by omega) with hnear | ⟨heq, heven⟩
  · exact .inl ((nearer_smaller_iff hstep).1 hnear)
  · exact .inr ⟨((as_near_iff hstep).1 heq.symm).symm, heven⟩

theorem aboveMiddle_succ {q : ℚ} {before : Nat} : AboveMiddle q (before + 1) ↔
    wordValue before + wordValue (before + 1) < 2 * q ∨
      (wordValue before + wordValue (before + 1) = 2 * q ∧ (before + 1) % 2 = 0) := by
  refine ⟨fun h => h before rfl, ?_⟩
  rintro h other hother
  obtain rfl := Nat.succ_injective hother
  exact h

/-- The word of a finite double is nearest to what lies between its middles. -/
theorem isNearest_iff_middles {q : ℚ} {word : Nat} (hlt : word < infinityBits) :
    IsNearest q word ↔ AboveMiddle q word ∧ BelowMiddle q word :=
  ⟨fun h => ⟨h.aboveMiddle, h.belowMiddle hlt⟩,
    fun h => isNearest_of_middles hlt.le h.1 fun _ => h.2⟩

theorem wordValue_zero : wordValue 0 = 0 := by
  rw [wordValue, units_of_lt (by decide), Nat.cast_zero, zero_div]

/-- A magnitude that is less than half a unit is rounded to zero. -/
theorem isNearest_zero {q : ℚ} (hsmall : 2 * q < wordValue 1) : IsNearest q 0 := by
  refine isNearest_of_middles (Nat.zero_le _) (fun before h => by omega) fun _ => .inl ?_
  rw [wordValue_zero, zero_add]
  exact hsmall

/-- A magnitude that no double reaches is rounded to the infinity. -/
theorem isNearest_infinityBits {q : ℚ} (h : wordValue infinityBits ≤ q) :
    IsNearest q infinityBits := by
  refine isNearest_of_middles (Nat.le_refl _) (fun before hbefore => .inl ?_)
    fun hlt => absurd hlt (Nat.lt_irrefl _)
  have : wordValue before < wordValue infinityBits := wordValue_strictMono (by omega)
  linarith

/-- The middle between the nearest word and a smaller one is not above the magnitude. -/
theorem IsNearest.middle_le {q : ℚ} {word other : Nat} (h : IsNearest q word) (hlt : other < word) :
    wordValue other + wordValue word ≤ 2 * q := by
  have hvalues := wordValue_strictMono hlt
  rcases h.2 other (hlt.le.trans h.1) hlt.ne with hnear | ⟨heq, -⟩
  · exact ((nearer_larger_iff hvalues).1 hnear).le
  · exact ((as_near_iff hvalues).1 heq).le

theorem IsNearest.le_middle {q : ℚ} {word other : Nat} (h : IsNearest q word) (hlt : word < other)
    (hother : other ≤ infinityBits) : 2 * q ≤ wordValue word + wordValue other := by
  have hvalues := wordValue_strictMono hlt
  rcases h.2 other hother hlt.ne' with hnear | ⟨heq, -⟩
  · exact ((nearer_smaller_iff hvalues).1 hnear).le
  · exact ((as_near_iff hvalues).1 heq.symm).ge

/-- A magnitude has one nearest word. -/
theorem IsNearest.unique {q : ℚ} {u w : Nat} (hu : IsNearest q u) (hw : IsNearest q w) : u = w := by
  by_contra hne
  wlog hlt : u < w generalizing u w
  · exact this hw hu (Ne.symm hne) (by omega)
  -- Both are as near, so both are even: a word lies between them, and it would be nearer.
  have hmiddle := le_antisymm (hw.middle_le hlt) (hu.le_middle hlt hw.1)
  have hequal := (as_near_iff (wordValue_strictMono hlt)).2 hmiddle
  have hu2 := ((hu.2 w hw.1 (Ne.symm hne)).resolve_left hequal.le.not_gt).2
  have hw2 := ((hw.2 u hu.1 hne).resolve_left hequal.ge.not_gt).2
  have hbetween : u + 1 < w := by omega
  have hvalues : wordValue (u + 1) < wordValue w := wordValue_strictMono hbetween
  have hnext := hu.le_middle u.lt_succ_self (hbetween.le.trans hw.1)
  linarith

/-- A larger magnitude has no smaller nearest word. -/
theorem IsNearest.mono {q q' : ℚ} {u w : Nat} (hu : IsNearest q u) (hw : IsNearest q' w)
    (h : q ≤ q') : u ≤ w := by
  by_contra hlt
  rw [not_le] at hlt
  -- The middle between the words is at most `q` and at least `q'`.
  have hlow := hu.middle_le hlt
  have hhigh := hw.le_middle hlt hu.1
  obtain rfl : q = q' := by linarith
  exact hlt.ne (hw.unique hu)

theorem isNearest_wordValue {word : Nat} (h : word ≤ infinityBits) :
    IsNearest (wordValue word) word := by
  refine ⟨h, fun other _ hne => .inl ?_⟩
  rw [sub_self, abs_zero, abs_pos, sub_ne_zero]
  exact fun heq => hne (wordValue_strictMono.injective heq.symm)

theorem roundHalfEven_spec (num : Nat) {den : Nat} (hden : 0 < den) :
    let m := roundHalfEven num den
    (2 * m * den < 2 * num + den ∨ (2 * m * den = 2 * num + den ∧ m % 2 = 0)) ∧
      (2 * num < 2 * m * den + den ∨ (2 * num = 2 * m * den + den ∧ m % 2 = 0)) := by
  have hsplit := Nat.div_add_mod num den
  have hlt := Nat.mod_lt num hden
  have hlow : 2 * (num / den) * den = 2 * (den * (num / den)) := by ring
  have hhigh : 2 * (num / den + 1) * den = 2 * (den * (num / den)) + 2 * den := by ring
  simp only [roundHalfEven]
  split_ifs with h1 h2 h3
  · rw [hlow]; omega
  · rw [hhigh]; omega
  · rw [hlow]; omega
  · rw [hhigh]; omega

theorem roundHalfEven_le {num den bound : Nat} (hden : 0 < den) (h : num < bound * den) :
    roundHalfEven num den ≤ bound := by
  have hquot : num / den < bound := (Nat.div_lt_iff_lt_mul hden).mpr h
  simp only [roundHalfEven]
  split_ifs <;> omega

theorem le_roundHalfEven {num den bound : Nat} (hden : 0 < den) (h : bound * den ≤ num) :
    bound ≤ roundHalfEven num den := by
  have hquot : bound ≤ num / den := (Nat.le_div_iff_mul_le hden).mpr h
  simp only [roundHalfEven]
  split_ifs <;> omega

/-- The quotient of a number by the binade's unit has 53 bits, or fewer below the normal range. -/
theorem significand_bounds (quotient : Nat) :
    quotient < 2 * binade * twoTo (Nat.log2 quotient - 52) ∧
      (Nat.log2 quotient - 52 = 0 ∨ binade * twoTo (Nat.log2 quotient - 52) ≤ quotient) := by
  have hbinade : binade = 2 ^ 52 := by decide
  rcases Nat.eq_zero_or_pos quotient with h0 | hpos
  · subst h0
    exact ⟨by decide, .inl (by decide)⟩
  · have hlt : quotient < 2 ^ (Nat.log2 quotient + 1) := Nat.lt_log2_self
    have hle : 2 ^ Nat.log2 quotient ≤ quotient := Nat.log2_self_le (by omega)
    rw [twoTo_eq, hbinade]
    constructor
    · calc quotient < 2 ^ (Nat.log2 quotient + 1) := hlt
        _ ≤ 2 ^ (1 + 52 + (Nat.log2 quotient - 52)) := Nat.pow_le_pow_right (by decide) (by omega)
        _ = 2 * 2 ^ 52 * 2 ^ (Nat.log2 quotient - 52) := by rw [pow_add, pow_add, pow_one]
    · rcases Nat.lt_or_ge (Nat.log2 quotient) 53 with hsmall | hlarge
      · exact .inl (by omega)
      · refine .inr ?_
        rw [← pow_add]
        exact (Nat.pow_le_pow_right (by decide) (by omega)).trans hle

section Rounding

variable {num den : Nat}

theorem wordValue_add_lt_iff (hden : 0 < den) (u w : Nat) :
    wordValue u + wordValue w < 2 * (num / den : ℚ) ↔
      (units u + units w) * den < 2 * (num * unitsInOne) := by
  have hden' : (0 : ℚ) < den := by exact_mod_cast hden
  rw [wordValue, wordValue, ← add_div, mul_div_assoc', div_lt_div_iff₀ unitsInOne_pos hden',
    mul_assoc 2]
  exact_mod_cast Iff.rfl

theorem lt_wordValue_add_iff (hden : 0 < den) (u w : Nat) :
    2 * (num / den : ℚ) < wordValue u + wordValue w ↔
      2 * (num * unitsInOne) < (units u + units w) * den := by
  have hden' : (0 : ℚ) < den := by exact_mod_cast hden
  rw [wordValue, wordValue, ← add_div, mul_div_assoc', div_lt_div_iff₀ hden' unitsInOne_pos,
    mul_assoc 2]
  exact_mod_cast Iff.rfl

theorem wordValue_add_eq_iff (hden : 0 < den) (u w : Nat) :
    wordValue u + wordValue w = 2 * (num / den : ℚ) ↔
      (units u + units w) * den = 2 * (num * unitsInOne) := by
  have hden' : (den : ℚ) ≠ 0 := by exact_mod_cast hden.ne'
  rw [wordValue, wordValue, ← add_div, mul_div_assoc', div_eq_div_iff unitsInOne_pos.ne' hden',
    mul_assoc 2]
  exact_mod_cast Iff.rfl

/-- The next word is at least the unit of the binade away, and more at a binade's end. -/
theorem units_add_le_succ {power m : Nat} (hlow : power = 0 ∨ binade ≤ m)
    (hhigh : m ≤ 2 * binade) :
    units (power * binade + m) + twoTo power ≤ units (power * binade + m + 1) := by
  rcases Nat.lt_or_ge m (2 * binade) with hm | hm
  · rw [units_succ power m hlow hm]
  · have hword : power * binade + m = (power + 1) * binade + binade := by
      rw [Nat.le_antisymm hhigh hm]; ring
    rw [hword, units_succ _ _ (.inr (Nat.le_refl _)) (by decide), twoTo_succ]
    have := twoTo_pos power
    omega

/-- The word of a significand rounded in the unit of a binade has the fraction between its
middles. -/
theorem middles_of_significand (hden : 0 < den) (power : Nat)
    (hhigh : num * unitsInOne < 2 * binade * (den * twoTo power))
    (hlow : power = 0 ∨ binade * (den * twoTo power) ≤ num * unitsInOne) :
    let word := power * binade + roundHalfEven (num * unitsInOne) (den * twoTo power)
    AboveMiddle (num / den) word ∧ BelowMiddle (num / den) word := by
  have hunit : 0 < den * twoTo power := Nat.mul_pos hden (twoTo_pos _)
  have hm := roundHalfEven_le hunit hhigh
  have hm' : power = 0 ∨ binade ≤ roundHalfEven (num * unitsInOne) (den * twoTo power) :=
    hlow.imp_right (le_roundHalfEven hunit)
  obtain ⟨hround, hround'⟩ := roundHalfEven_spec (num * unitsInOne) hunit
  generalize roundHalfEven (num * unitsInOne) (den * twoTo power) = m at *
  have hunits := units_scaled hm' hm
  have hparity : (power * binade + m) % 2 = m % 2 := by unfold binade; omega
  have hscale : 2 * m * (den * twoTo power) = 2 * (m * twoTo power * den) := by ring
  rw [hscale] at hround hround'
  refine ⟨fun before hbefore => ?_, ?_⟩
  · rw [wordValue_add_lt_iff hden, wordValue_add_eq_iff hden, hunits, hparity]
    by_cases hedge : power = 0 ∨ binade < m
    · have hpos : 0 < m := by
        rcases hedge with h | h
        · rw [h, Nat.zero_mul] at hbefore; omega
        · omega
      have hsucc := units_succ power (m - 1) (by omega) (by omega)
      rw [show power * binade + (m - 1) = before by omega, hbefore, hunits] at hsucc
      have hsum : (units before + m * twoTo power) * den + den * twoTo power =
          2 * (m * twoTo power * den) := by
        rw [hsucc]; ring
      omega
    · -- At a binade's start the word before is nearer than a unit, and the fraction not below.
      have hm2 : m = binade := by omega
      left
      calc (units before + m * twoTo power) * den
          < (m * twoTo power + m * twoTo power) * den := by
            refine Nat.mul_lt_mul_of_pos_right (Nat.add_lt_add_right ?_ _) hden
            rw [← hunits, ← hbefore]
            exact units_strictMono (Nat.lt_succ_self _)
        _ = 2 * (binade * (den * twoTo power)) := by rw [hm2]; ring
        _ ≤ 2 * (num * unitsInOne) := Nat.mul_le_mul_left 2 (hlow.resolve_left (by omega))
  · have hnext := Nat.mul_le_mul_right den (units_add_le_succ hm' hm)
    rw [hunits] at hnext
    have hsum : (m * twoTo power + (m * twoTo power + twoTo power)) * den =
        2 * (m * twoTo power * den) + den * twoTo power := by ring
    have hsplit : (m * twoTo power + units (power * binade + m + 1)) * den =
        m * twoTo power * den + units (power * binade + m + 1) * den := Nat.add_mul ..
    rw [BelowMiddle, lt_wordValue_add_iff hden, eq_comm, wordValue_add_eq_iff hden, hunits,
      hparity]
    rw [Nat.add_mul] at hsum
    omega

theorem nearestBits_isNearest (hden : 0 < den) :
    IsNearest (num / den) (nearestBits num den) := by
  obtain ⟨hlt, hge⟩ := significand_bounds (num * unitsInOne / den)
  have hbits : nearestBits num den = min infinityBits
      ((Nat.log2 (num * unitsInOne / den) - 52) * binade + roundHalfEven (num * unitsInOne)
        (den * twoTo (Nat.log2 (num * unitsInOne / den) - 52))) := rfl
  rw [hbits]
  generalize Nat.log2 (num * unitsInOne / den) - 52 = power at *
  have hmiddles := @middles_of_significand num den hden power
    (by
      have := (Nat.div_lt_iff_lt_mul hden).mp hlt
      calc num * unitsInOne < 2 * binade * twoTo power * den := this
        _ = 2 * binade * (den * twoTo power) := by ring)
    (hge.imp_right fun h => by
      have := (Nat.le_div_iff_mul_le hden).mp h
      calc binade * (den * twoTo power) = binade * twoTo power * den := by ring
        _ ≤ num * unitsInOne := this)
  simp only at hmiddles
  generalize power * binade + roundHalfEven (num * unitsInOne) (den * twoTo power) = word at *
  obtain ⟨habove, hbelow⟩ := hmiddles
  rcases Nat.lt_or_ge infinityBits word with hover | hin
  · rw [Nat.min_eq_left hover.le]
    refine isNearest_of_middles (Nat.le_refl _) (fun before hbefore => .inl ?_)
      (fun h => absurd h (Nat.lt_irrefl _))
    -- The fraction lies above the middle before a word behind the infinity.
    obtain ⟨last, rfl⟩ : ∃ last, last + 1 = word := ⟨word - 1, by omega⟩
    have h1 : wordValue before < wordValue last := wordValue_strictMono (by omega)
    have h2 : wordValue infinityBits < wordValue (last + 1) := wordValue_strictMono hover
    rcases habove last rfl with h | ⟨h, -⟩ <;> linarith
  · rw [Nat.min_eq_right hin]
    exact isNearest_of_middles hin habove fun _ => hbelow

end Rounding

/-- The double with a sign whose magnitude is nearest to `q`. -/
def IsNearestDouble (negative : Bool) (q : ℚ) (x : Float) : Prop :=
  ∃ word, IsNearest q word ∧ x = withSign negative word

/-- The word with a sign whose magnitude is nearest to `q`. -/
def IsNearestBits (negative : Bool) (q : ℚ) (bits : UInt64) : Prop :=
  ∃ word, IsNearest q word ∧ bits = signedBits negative word

theorem IsNearestBits.unique {negative : Bool} {q : ℚ} {bits bits' : UInt64}
    (h : IsNearestBits negative q bits) (h' : IsNearestBits negative q bits') : bits = bits' := by
  obtain ⟨word, hword, rfl⟩ := h
  obtain ⟨word', hword', rfl⟩ := h'
  rw [hword.unique hword']

theorem IsNearestBits.iff_eq {negative : Bool} {q : ℚ} {bits bits' : UInt64}
    (h : IsNearestBits negative q bits) : IsNearestBits negative q bits' ↔ bits' = bits :=
  ⟨fun h' => h'.unique h, fun heq => heq ▸ h⟩

theorem nearest_isNearestDouble (negative : Bool) (num : Nat) {den : Nat} (hden : 0 < den) :
    IsNearestDouble negative (num / den) (nearest negative num den) :=
  ⟨nearestBits num den, nearestBits_isNearest hden, rfl⟩

theorem ofInt_isNearestDouble (n : Int) : IsNearestDouble (decide (n < 0)) |(n : ℚ)| (ofInt n) := by
  have hmagnitude : |(n : ℚ)| = (n.natAbs : ℚ) / (1 : Nat) := by
    rw [Nat.cast_natAbs, Int.cast_abs, Nat.cast_one, div_one]
  rw [hmagnitude]
  exact nearest_isNearestDouble _ _ Nat.one_pos

end Binary64
end RecordCheck
