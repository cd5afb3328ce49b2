import RecordCheck.Proofs.Binary64.Product
import RecordCheck.Proofs.Json.Numbers
set_option autoImplicit false

/-!
# JSON: finite doubles are read as doubles

A double is read as a coefficient times a power of ten, each rounded to a double before they are
multiplied.  The product of two roundings could overflow where the number that is written does not;
for the texts of doubles it never does (`exists_reread`, `exists_readFloat`).
-/

namespace RecordCheck.Json

open Binary64

/-- The greatest finite double. -/
def largest : Nat := (twoTo 53 - 1) * twoTo 971

theorem wordValue_largest : wordValue (infinityBits - 1) = largest := by
  have hsignificand : significand (infinityBits - 1) = twoTo 53 - 1 := by decide
  have hpower : Binary64.power (infinityBits - 1) = (971 : Nat) := by decide
  rw [wordValue_eq, hsignificand, hpower, largest, Nat.cast_mul, twoTo_cast 971]

/-- The shortest decimal of a finite double is at most the greatest one. -/
theorem shortest_le_largest {word : Nat} (hpos : 0 < word) (hlt : word < infinityBits) :
    (Decimal.shortest .even (significand word) (Binary64.power word)).value ≤ largest := by
  have hnearest := Decimal.isNearest_shortest .even hpos hlt
  rcases Nat.lt_or_ge word (infinityBits - 1) with h | h
  · by_contra habove
    rw [not_le, ← wordValue_largest] at habove
    have := (isNearest_wordValue (Nat.sub_le _ 1)).mono hnearest habove.le
    omega
  · -- The greatest double itself: its shortest decimal is smaller.
    obtain rfl : word = infinityBits - 1 := by omega
    have hshortest : Decimal.shortest .even (significand (infinityBits - 1))
        (Binary64.power (infinityBits - 1)) = ⟨17976931348623157, (292 : Nat)⟩ := by
      decide +kernel
    have hle : 17976931348623157 * tenTo 292 ≤ largest := by decide +kernel
    simp only [hshortest, Decimal.value, Decimal.zpow_eq_tenTo]
    rw [← Nat.cast_mul, Nat.cast_le]
    exact hle

/-- The greatest coefficient that a power of ten scales to a double. -/
def coefficientLimit (exponent : Nat) : Nat := min (10 ^ 17) (largest / tenTo exponent)

/-- The large powers of ten do not overflow with their greatest coefficients.  The margin is narrow:
with one unit more in the coefficient the power of 292 would. -/
theorem product_lt_overflow : ∀ k < 18,
    nearestBits (coefficientLimit (291 + k)) 1 < infinityBits ∧
      nearestBits (tenTo (291 + k)) 1 < infinityBits ∧
      units (nearestBits (coefficientLimit (291 + k)) 1) *
          units (nearestBits (tenTo (291 + k)) 1) <
        (twoTo 1024 - twoTo 970) * (unitsInOne * unitsInOne) := by
  decide +kernel

theorem twoTo_mono {m n : Nat} (h : m ≤ n) : twoTo m ≤ twoTo n :=
  Nat.pow_le_pow_right (by decide) h

theorem tenTo_mono {m n : Nat} (h : m ≤ n) : tenTo m ≤ tenTo n :=
  Nat.pow_le_pow_right (by decide) h

theorem nearestBits_mono {m n : Nat} (h : m ≤ n) : nearestBits m 1 ≤ nearestBits n 1 :=
  (nearestBits_isNearest Nat.one_pos).mono (nearestBits_isNearest Nat.one_pos)
    (by simpa using h)

theorem nearestBits_pos {n : Nat} (h : 0 < n) : 0 < nearestBits n 1 :=
  (show 0 < nearestBits 1 1 by decide +kernel).trans_le (nearestBits_mono h)

theorem overflow_eq : overflow = (twoTo 1024 - twoTo 970 : Nat) := by
  have hle : twoTo 970 ≤ twoTo 1024 := twoTo_mono (by decide)
  rw [Nat.cast_sub hle, twoTo_eq, twoTo_eq, Nat.cast_pow, Nat.cast_pow, overflow]
  rfl

theorem wordValue_mul_lt_overflow {u v : Nat}
    (h : units u * units v < (twoTo 1024 - twoTo 970) * (unitsInOne * unitsInOne)) :
    wordValue u * wordValue v < overflow := by
  have hunits : (0 : ℚ) < unitsInOne := unitsInOne_pos
  rw [wordValue, wordValue, div_mul_div_comm, div_lt_iff₀ (mul_pos hunits hunits), overflow_eq]
  exact_mod_cast h

/-- A coefficient and a power of ten do not overflow where their exact product does not. -/
theorem isInf_product {coefficient exponent : Nat} (hpos : 0 < coefficient)
    (hsize : coefficient ≤ 10 ^ 17) (hexponent : exponent ≤ 308)
    (hvalue : coefficient * tenTo exponent ≤ largest) :
    (nearest false coefficient 1 * powerOfTen exponent).isInf = false := by
  -- A power below that of 291 is not larger than this one.
  obtain ⟨k, hk, hle, hlimit⟩ : ∃ k < 18, exponent ≤ 291 + k ∧
      coefficient ≤ coefficientLimit (291 + k) := by
    rcases Nat.lt_or_ge exponent 291 with h | h
    · exact ⟨0, by decide, h.le, hsize.trans (by decide +kernel)⟩
    · obtain ⟨k, rfl⟩ := Nat.exists_eq_add_of_le h
      exact ⟨k, by omega, le_rfl,
        le_min hsize ((Nat.le_div_iff_mul_le (tenTo_pos _)).2 hvalue)⟩
  obtain ⟨hfinite, hfinite', hproduct⟩ := product_lt_overflow k hk
  have hcoefficient := nearestBits_mono hlimit
  have hpower := nearestBits_mono (tenTo_mono hle)
  refine isInf_mul (nearestBits_pos hpos) (hcoefficient.trans_lt hfinite)
    (nearestBits_pos (tenTo_pos _)) (hpower.trans_lt hfinite') (wordValue_mul_lt_overflow ?_)
  exact (Nat.mul_le_mul (units_strictMono.monotone hcoefficient)
    (units_strictMono.monotone hpower)).trans_lt hproduct

theorem largest_lt : largest < tenTo 309 := by decide +kernel

theorem scaled?_isSome {coefficient : Nat} {exponent : Int} (hpos : 0 < coefficient)
    (hsize : coefficient ≤ 10 ^ 17) (hvalue : (coefficient : ℚ) * 10 ^ exponent ≤ largest) :
    (scaled? coefficient exponent).isSome := by
  unfold scaled?
  simp only
  by_cases hnegative : exponent < 0
  · rw [if_pos hnegative]
    rfl
  · obtain ⟨n, rfl⟩ := Int.eq_ofNat_of_zero_le (not_lt.1 hnegative)
    have hproduct : coefficient * tenTo n ≤ largest := by
      rw [Decimal.zpow_eq_tenTo] at hvalue
      exact_mod_cast hvalue
    have hsmall : n ≤ 308 := by
      by_contra hlarge
      have hpow : tenTo 309 ≤ tenTo n := tenTo_mono (by omega)
      have hle : tenTo n ≤ coefficient * tenTo n := Nat.le_mul_of_pos_left _ hpos
      exact absurd largest_lt (not_lt.2 ((hpow.trans hle).trans hproduct))
    have hinf := isInf_product hpos hsize hsmall hproduct
    rw [if_neg hnegative, if_neg (by omega), Int.toNat_natCast, hinf]
    rfl

theorem scaled?_asRead_isSome {word : Nat} (h : word < infinityBits) :
    (scaled? (asRead (written (significand word) (Binary64.power word))).coefficient
      (asRead (written (significand word) (Binary64.power word))).exponent).isSome := by
  have hdown (coefficient : Nat) : (scaled? coefficient (-1)).isSome := rfl
  unfold asRead
  split_ifs with hwhole
  · exact hdown _
  · rcases Nat.eq_zero_or_pos word with rfl | hpos
    · exact absurd (by decide) hwhole
    · have hsignificand := significand_pos hpos
      rw [written, if_neg hsignificand.ne'] at hwhole ⊢
      obtain ⟨hcoefficient, -, -⟩ := Decimal.leadingPower_bounds hpos h
        (Decimal.isNearest_shortest .even hpos h)
      exact scaled?_isSome (Nat.pos_of_ne_zero hcoefficient)
        (Decimal.shortest_coefficient_le .even _ hsignificand (significand_lt word))
        (shortest_le_largest hpos h)

/-- The text of a finite double is read as a double. -/
theorem exists_reread {x : Float} (h : x.isFinite = true) : ∃ y, reread? x = some y := by
  rcases float_cases x with rfl | ⟨negative, word, hword, rfl⟩
  · exact absurd h (by decide)
  · have hfinite : word ≠ infinityBits := by
      rintro rfl
      revert h
      cases negative <;> decide
    obtain ⟨y, hy⟩ := Option.isSome_iff_exists.1
      (scaled?_asRead_isSome (lt_of_le_of_ne hword hfinite))
    rw [reread?, ofFloat_withSign hword, if_neg hfinite]
    simp only [hy]
    exact ⟨_, rfl⟩

/-- The text of any double is read as some value. -/
theorem exists_readFloat (x : Float) : ∃ y, readFloat x = some y := by
  cases hfinite : x.isFinite with
  | true =>
    obtain ⟨y, hy⟩ := exists_reread hfinite
    exact ⟨.float y, readFloat_eq_float_iff.2 hy⟩
  | false =>
    refine ⟨.null, ?_⟩
    rcases ofFloat_of_not_finite hfinite with hnan | ⟨negative, hinfinite⟩
    · rw [readFloat, hnan]
    · rw [readFloat, hinfinite]

end RecordCheck.Json
