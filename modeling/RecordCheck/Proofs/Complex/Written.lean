import RecordCheck.Proofs.Complex.Accepted
import RecordCheck.Proofs.Decimal.Size
import RecordCheck.Complex.Basic
set_option autoImplicit false

/-!
# Complex: written decimals are numbers of the grammar

Where the point stands among the digits of a decimal is data (`Placed`), and so are the digits of a
written power; the text of a decimal is told from these (`positional_digits`, `scientific_digits`,
`power_digits`).  Either way it is the text of a derivation that names the doubles nearest to the
decimal.
-/

namespace RecordCheck.Complex

open Binary64

/-- The text is one of a number, which names the words of the doubles nearest to `q`. -/
def Writes (text : List Char) (q : ℚ) : Prop :=
  ∃ n : Numeral, n.text = text ∧
    ∀ negative bits, n.Names negative bits ↔ IsNearestBits negative q bits

/-! ## Digits -/

theorem baseTen_append_singleton (ds : List Nat) (d : Nat) :
    baseTen (ds ++ [d]) = 10 * baseTen ds + d := by
  rw [baseTen, List.reverse_append, List.reverse_singleton, List.singleton_append,
    Nat.ofDigits_cons, baseTen, Nat.add_comm]

theorem baseTen_replicate_zero (k : Nat) : baseTen (List.replicate k 0) = 0 := by
  rw [baseTen, List.reverse_replicate, Nat.ofDigits_replicate_zero]

/-- The digits of a number, with no zero in front of others. -/
theorem exists_digits (n : Nat) : ∃ ds : List (Fin 10), ds ≠ [] ∧ (ds.head? = some 0 → ds = [0]) ∧
    Nat.toDigits 10 n = ds.map digitChar ∧ baseTen (ds.map Fin.val) = n := by
  induction n using Nat.strong_induction_on with
  | _ n ih =>
    by_cases hlt : n < 10
    · refine ⟨[⟨n, hlt⟩], List.cons_ne_nil _ _, fun h => ?_, Nat.toDigits_of_lt_base hlt, ?_⟩
      · rw [Option.some.inj h]
      · simp [baseTen]
    · obtain ⟨ds, hne, hleading, htext, hvalue⟩ := ih (n / 10) (by omega)
      have hmod : n % 10 < 10 := Nat.mod_lt n (by decide)
      refine ⟨ds ++ [⟨n % 10, hmod⟩], List.append_ne_nil_of_right_ne_nil _ (List.cons_ne_nil _ _),
        fun h => ?_, ?_, ?_⟩
      · rw [List.head?_append_of_ne_nil _ hne] at h
        rw [hleading h] at hvalue
        have hzero : baseTen ([0].map (Fin.val : Fin 10 → Nat)) = 0 := rfl
        omega
      · rw [Nat.toDigits_of_base_le (by decide) (by omega), htext, List.map_append]
        rfl
      · rw [List.map_append, List.map_singleton, baseTen_append_singleton, hvalue]
        exact Nat.div_add_mod n 10

theorem baseTen_cons (d : Nat) (ds : List Nat) :
    baseTen (d :: ds) = d * 10 ^ ds.length + baseTen ds := by
  have h := baseTen_append [d] ds
  rwa [List.singleton_append, show baseTen [d] = d by simp [baseTen]] at h

theorem reverse_digits_lt (ds : List (Fin 10)) : ∀ n ∈ (ds.map Fin.val).reverse, n < 10 := by
  intro n hn
  obtain ⟨d, -, rfl⟩ := List.mem_map.1 (List.mem_reverse.1 hn)
  exact d.isLt

theorem baseTen_lt (ds : List (Fin 10)) : baseTen (ds.map Fin.val) < 10 ^ ds.length := by
  have h := Nat.ofDigits_lt_base_pow_length (by decide) (reverse_digits_lt ds)
  rwa [List.length_reverse, List.length_map] at h

/-- The digits of a number that is not zero begin with no zero. -/
theorem exists_leading {n : Nat} (hn : n ≠ 0) : ∃ (d : Fin 10) (ds : List (Fin 10)), d ≠ 0 ∧
    Nat.toDigits 10 n = (d :: ds).map digitChar ∧ baseTen ((d :: ds).map Fin.val) = n := by
  obtain ⟨ds, hne, hleading, htext, hvalue⟩ := exists_digits n
  obtain ⟨d, ds, rfl⟩ := List.exists_cons_of_ne_nil hne
  refine ⟨d, ds, ?_, htext, hvalue⟩
  rintro rfl
  rw [hleading rfl] at hvalue
  exact hn hvalue.symm

/-! ## Decimals -/

theorem writes_whole {ds : List (Fin 10)} (hds : ds ≠ []) (power : Option Power) :
    Writes (ds.map digitChar ++ optionText Power.text power)
      (⟨baseTen (ds.map Fin.val), powerValue power⟩ : Decimal).value := by
  obtain ⟨first, others, rfl⟩ := List.exists_cons_of_ne_nil hds
  refine ⟨.whole (.ofList first others) power, ?_, fun negative bits => ?_⟩
  · rw [Numeral.text, Digits.text_ofList]
  · rw [Numeral.Names, Digits.values_ofList, positionalValue_eq, List.append_nil, List.length_nil,
      Nat.cast_zero, Int.sub_zero]

theorem writes_pointed {ds behind : List (Fin 10)} (hds : ds ≠ []) (hbehind : behind ≠ [])
    (power : Option Power) :
    Writes (ds.map digitChar ++ '.' :: (behind.map digitChar ++ optionText Power.text power))
      (⟨baseTen ((ds ++ behind).map Fin.val), powerValue power - behind.length⟩ :
        Decimal).value := by
  obtain ⟨first, others, rfl⟩ := List.exists_cons_of_ne_nil hds
  obtain ⟨first', others', rfl⟩ := List.exists_cons_of_ne_nil hbehind
  refine ⟨.pointed (.ofList first others) (some (.ofList first' others')) power, ?_,
    fun negative bits => ?_⟩
  · rw [Numeral.text, optionText, Digits.text_ofList, Digits.text_ofList]
  · rw [Numeral.Names, Digits.values_ofList, Digits.values_ofList, positionalValue_eq,
      ← List.map_append, List.length_map]

theorem digitChar_zero : digitChar 0 = '0' := rfl

theorem value_zeros (coefficient k : Nat) :
    (⟨coefficient * 10 ^ k, 0⟩ : Decimal).value = (⟨coefficient, k⟩ : Decimal).value := by
  rw [Decimal.value, Decimal.value, zpow_natCast, zpow_zero]
  push_cast
  ring

theorem baseTen_zeros_behind (ds : List Nat) (k : Nat) :
    baseTen (ds ++ List.replicate k 0) = baseTen ds * 10 ^ k := by
  rw [baseTen_append, baseTen_replicate_zero, List.length_replicate, Nat.add_zero]

theorem baseTen_zeros_before (ds : List Nat) (k : Nat) :
    baseTen (List.replicate k 0 ++ ds) = baseTen ds := by
  rw [baseTen_append, baseTen_replicate_zero, Nat.zero_mul, Nat.zero_add]

/-- What stands behind the digits of a whole number: a point and more digits, or the ending. -/
def behindText (ending : String) (behind : List (Fin 10)) : List Char :=
  if behind = [] then ending.toList else '.' :: behind.map digitChar

/-- Where the digits of a decimal with the exponent stand when it is written positionally: in front
of the point with zeros behind them, on both sides of it, or behind it with a zero in front of it
and zeros between. -/
inductive Placed (ds : List (Fin 10)) : (exponent : Int) → (whole behind : List (Fin 10)) → Prop
  | front (zeros : Nat) : Placed ds zeros (ds ++ List.replicate zeros 0) []
  | around {whole behind : List (Fin 10)} (parts : ds = whole ++ behind) (whole_ne : whole ≠ [])
      (behind_ne : behind ≠ []) : Placed ds (-behind.length) whole behind
  | behind (zeros : Nat) : Placed ds (-(List.replicate zeros (0 : Fin 10) ++ ds).length) [0]
      (List.replicate zeros 0 ++ ds)

theorem positional_digits (ending : String) {d : Decimal} {ds : List (Fin 10)} (hds : ds ≠ [])
    (hdigits : d.digits = ds.map digitChar) : ∃ whole behind, Placed ds d.exponent whole behind ∧
      (d.positional ending).toList = whole.map digitChar ++ behindText ending behind := by
  have hlength : 0 < ds.length := List.length_pos_iff.2 hds
  unfold Decimal.positional
  simp only [hdigits, List.length_map]
  split
  · rename_i power hpower
    rw [Decimal.leadingPower, hdigits, List.length_map, Int.ofNat_eq_natCast] at hpower
    split_ifs with hlong
    · rw [show d.exponent = (power + 1 - ds.length : Nat) by omega]
      exact ⟨_, _, .front _, by simp [behindText, digitChar_zero]⟩
    · have hdrop : ds.drop (power + 1) ≠ [] := by simp; omega
      rw [show d.exponent = -((ds.drop (power + 1)).length : Int) by
        rw [List.length_drop]
        omega]
      exact ⟨_, _, .around (List.take_append_drop (power + 1) ds).symm (by simp [hds]) hdrop,
        by simp [behindText, hdrop]⟩
  · rename_i zeros hzeros
    rw [Decimal.leadingPower, hdigits, List.length_map] at hzeros
    rw [show d.exponent = -((List.replicate zeros (0 : Fin 10) ++ ds).length : Int) by
      rw [List.length_append, List.length_replicate]
      push_cast
      omega]
    exact ⟨_, _, .behind zeros, by simp [behindText, hds, digitChar_zero]⟩

namespace Placed

variable {ds whole behind : List (Fin 10)} {exponent : Int}
  (h : Placed ds exponent whole behind)

include h

/-- The digits keep their value, counted from the point. -/
theorem value_eq : (⟨baseTen (ds.map Fin.val), exponent⟩ : Decimal).value =
    (⟨baseTen ((whole ++ behind).map Fin.val), -behind.length⟩ : Decimal).value := by
  cases h with
  | front zeros =>
    rw [List.append_nil, List.map_append, List.map_replicate, Fin.val_zero, baseTen_zeros_behind,
      List.length_nil, Nat.cast_zero, neg_zero, value_zeros]
  | around parts => rw [parts]
  | behind zeros =>
    have hzeros : baseTen (([0] ++ (List.replicate zeros 0 ++ ds)).map Fin.val) =
        baseTen (ds.map Fin.val) := by
      rw [List.map_append, List.map_append, List.map_replicate]
      exact (baseTen_zeros_before _ 1).trans (baseTen_zeros_before _ zeros)
    rw [hzeros]

theorem whole_ne_nil (hds : ds ≠ []) : whole ≠ [] := by
  cases h with
  | front zeros => exact List.append_ne_nil_of_left_ne_nil hds _
  | around _ whole_ne => exact whole_ne
  | behind zeros => exact List.cons_ne_nil _ _

/-- A zero is in front of other digits only if one is in front of those of the decimal. -/
theorem leading (hds : ds ≠ []) (hfirst : ds.head? ≠ some 0) (hzero : whole.head? = some 0) :
    whole = [0] := by
  cases h with
  | front zeros =>
    rw [List.head?_append_of_ne_nil _ hds] at hzero
    exact absurd hzero hfirst
  | around parts whole_ne =>
    rw [parts, List.head?_append_of_ne_nil _ whole_ne] at hfirst
    exact absurd hzero hfirst
  | behind zeros => rfl

/-- A zero ends the digits behind the point only if one ends those of the decimal. -/
theorem last (hds : ds ≠ []) (hlast : ds.getLast? ≠ some 0) : behind.getLast? ≠ some 0 := by
  cases h with
  | front zeros => simp
  | around parts _ behind_ne => rwa [parts, List.getLast?_append_of_ne_nil _ behind_ne] at hlast
  | behind zeros => rwa [List.getLast?_append_of_ne_nil _ hds]

end Placed

theorem positional_writes (d : Decimal) : Writes (d.positional "").toList d.value := by
  obtain ⟨ds, hds, -, hdigits, hcoefficient⟩ := exists_digits d.coefficient
  obtain ⟨whole, behind, hplaced, htext⟩ := positional_digits "" hds hdigits
  have hwhole := hplaced.whole_ne_nil hds
  have hvalue := hplaced.value_eq
  rw [hcoefficient] at hvalue
  rw [htext, show d.value = _ from hvalue, behindText]
  split_ifs with hbehind
  · subst hbehind
    simpa [optionText, powerValue] using writes_whole hwhole none
  · simpa [optionText, powerValue] using writes_pointed hwhole hbehind none

/-- A power of ten is written with a sign and as many digits as the style asks for, or with more but
then without zeros in front. -/
theorem power_digits {style : Decimal.ExponentStyle} (hwidth : 0 < style.width) (power : Int) :
    ∃ ds : List (Fin 10), (style.write power).toList =
        'e' :: ((if power < 0 then ['-'] else style.plus.toList) ++ ds.map digitChar) ∧
      style.width ≤ ds.length ∧ (ds.head? = some 0 → ds.length = style.width) ∧
      baseTen (ds.map Fin.val) = power.natAbs := by
  obtain ⟨ds, hne, hleading, hdigits, hvalue⟩ := exists_digits power.natAbs
  refine ⟨List.replicate (style.width - ds.length) 0 ++ ds, ?_, ?_, ?_, ?_⟩
  · unfold Decimal.ExponentStyle.write
    simp only [hdigits, List.length_map]
    split_ifs
    · simp [digitChar_zero]
    · simp [digitChar_zero]
  · rw [List.length_append, List.length_replicate]
    omega
  · intro hzero
    rw [List.length_append, List.length_replicate]
    rcases Nat.lt_or_ge ds.length style.width with hlt | hge
    · omega
    · rw [Nat.sub_eq_zero_of_le hge, List.replicate_zero, List.nil_append] at hzero
      have hlength : ds.length = 1 := by rw [hleading hzero, List.length_singleton]
      omega
  · rw [List.map_append, List.map_replicate, Fin.val_zero, baseTen_zeros_before, hvalue]

/-- The text of a decimal with a power of ten, and where the point stands in it. -/
theorem scientific_digits (style : Decimal.ExponentStyle) {d : Decimal} {first : Fin 10}
    {others : List (Fin 10)} (hdigits : d.digits = (first :: others).map digitChar) :
    (d.scientific style).toList = digitChar first ::
        (behindText "" others ++ (style.write d.leadingPower).toList) ∧
      d.leadingPower - others.length = d.exponent := by
  constructor
  · unfold Decimal.scientific
    rw [hdigits]
    cases others with
    | nil => simp [behindText]
    | cons second others => simp [behindText]
  · rw [Decimal.leadingPower, hdigits, List.length_map, List.length_cons]
    push_cast
    ring

theorem exists_power (power : Int) : ∃ p : Power,
    p.text = (exponentStyle.write power).toList ∧ powerValue (some p) = power := by
  obtain ⟨ds, htext, hlength, -, hvalue⟩ :=
    power_digits (show 0 < exponentStyle.width by decide) power
  obtain ⟨first, others, rfl⟩ := List.exists_cons_of_length_pos (Nat.lt_of_lt_of_le
    (by decide) hlength)
  have hbase : baseTen (Digits.ofList first others).values = power.natAbs := by
    rw [Digits.values_ofList, hvalue]
  rw [htext]
  by_cases hnegative : power < 0
  · refine ⟨⟨false, some .minus, .ofList first others⟩, ?_, ?_⟩
    · simp [Power.text, optionText, Sign.text, Digits.text_ofList, hnegative]
    · rw [powerValue, hbase]
      show -(power.natAbs : Int) = power
      omega
  · refine ⟨⟨false, some .plus, .ofList first others⟩, ?_, ?_⟩
    · simp [Power.text, optionText, Sign.text, Digits.text_ofList, hnegative, exponentStyle]
    · rw [powerValue, hbase]
      show (power.natAbs : Int) = power
      omega

theorem scientific_writes (d : Decimal) : Writes (d.scientific exponentStyle).toList d.value := by
  obtain ⟨ds, hds, -, hdigits, hcoefficient⟩ := exists_digits d.coefficient
  obtain ⟨first, others, rfl⟩ := List.exists_cons_of_ne_nil hds
  obtain ⟨htext, hexponent⟩ := scientific_digits exponentStyle hdigits
  obtain ⟨p, hp, hpower⟩ := exists_power d.leadingPower
  have hvalue : (⟨baseTen ((first :: others).map Fin.val), powerValue (some p) - others.length⟩ :
      Decimal).value = d.value := by
    rw [hcoefficient, hpower, hexponent]
  rw [htext, ← hp, ← hvalue, behindText]
  have hfirst : [first] ≠ [] := List.cons_ne_nil _ _
  split_ifs with hothers
  · subst hothers
    simpa [optionText] using writes_whole hfirst (some p)
  · simpa [optionText] using writes_pointed hfirst hothers (some p)

theorem magnitudeText_writes {word : Nat} (h : word < infinityBits) :
    ∃ q, Writes (magnitudeText (significand word) (power word)).toList q ∧ IsNearest q word := by
  unfold magnitudeText
  by_cases hzero : word = 0
  · subst hzero
    have htext := writes_whole (List.cons_ne_nil (0 : Fin 10) []) none
    refine ⟨0, ?_, isNearest_zero ?_⟩
    · rw [if_pos (significand_of_lt (by decide)).1]
      simpa [optionText, digitChar_zero, baseTen, Decimal.value] using htext
    · rw [mul_zero, ← wordValue_zero]
      exact wordValue_strictMono Nat.one_pos
  · have hpos : 0 < word := Nat.pos_of_ne_zero hzero
    rw [if_neg (significand_pos hpos).ne']
    refine ⟨_, ?_, Decimal.isNearest_shortest .up hpos h⟩
    simp only
    split_ifs
    · exact positional_writes _
    · exact scientific_writes _

end RecordCheck.Complex
