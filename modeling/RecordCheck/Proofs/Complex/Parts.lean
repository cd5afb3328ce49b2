import RecordCheck.Proofs.Complex.RoundTrip
import RecordCheck.Proofs.Decimal.Fewest
set_option autoImplicit false

/-!
# Complex: what the text of a number is

A magnitude that has digits is written with those of its shortest decimal: positionally if the
leading power is from -4 to 15, and otherwise with the first digit in front of the point and the
power behind them all.  The rules name one text for each number (`PartText.unique`), which is the
one that is written.  Main statement: `text_eq_iff`.
-/

namespace RecordCheck.Complex

open Binary64

/-! ## Digits and the numbers they write -/

section

variable {xs ys : List (Fin 10)}

/-- As many digits of the same number are the same digits. -/
theorem digits_injective (hlength : xs.length = ys.length)
    (h : baseTen (xs.map Fin.val) = baseTen (ys.map Fin.val)) : xs = ys := by
  have hmap : (xs.map Fin.val).reverse = (ys.map Fin.val).reverse :=
    Nat.ofDigits_inj_of_len_eq (by decide) (by simpa using hlength) (reverse_digits_lt xs)
      (reverse_digits_lt ys) h
  exact List.map_injective_iff.2 Fin.val_injective (List.reverse_injective hmap)

/-- Digits that begin with no zero are not more than others of the same number. -/
theorem length_le_of_head (h : baseTen (xs.map Fin.val) = baseTen (ys.map Fin.val))
    (hhead : ys.head? = some 0 → ys.length ≤ xs.length) : ys.length ≤ xs.length := by
  cases ys with
  | nil => exact Nat.zero_le _
  | cons d ys =>
    by_cases hd : d = 0
    · exact hhead (by rw [hd, List.head?_cons])
    · have hpos : 1 ≤ d.val := Nat.pos_of_ne_zero fun hval => hd (Fin.val_inj.1 hval)
      have hlow : 10 ^ ys.length ≤ baseTen ((d :: ys).map Fin.val) := by
        rw [List.map_cons, baseTen_cons, List.length_map]
        exact (Nat.le_mul_of_pos_left _ hpos).trans (Nat.le_add_right _ _)
      have hhigh := baseTen_lt xs
      rw [h] at hhigh
      exact (Nat.pow_lt_pow_iff_right (by decide)).1 (hlow.trans_lt hhigh)

/-- The last digit is the number modulo ten. -/
theorem baseTen_mod_ten (h : xs ≠ []) :
    baseTen (xs.map Fin.val) % 10 = 0 ↔ xs.getLast? = some 0 := by
  obtain ⟨ds, d, rfl⟩ := (List.eq_nil_or_concat' xs).resolve_left h
  rw [List.map_append, List.map_singleton, baseTen_append_singleton, List.getLast?_concat,
    Option.some_inj, ← Fin.val_inj, Fin.val_zero, Nat.mul_add_mod, Nat.mod_eq_of_lt d.isLt]

end

section

variable {whole behind whole' behind' : List (Fin 10)} {k : Int}
  (h : (⟨baseTen ((whole ++ behind).map Fin.val), k - behind.length⟩ : Decimal).value =
    (⟨baseTen ((whole' ++ behind').map Fin.val), k - behind'.length⟩ : Decimal).value)

include h

theorem behind_length_le (hlast : behind'.getLast? ≠ some 0) : behind'.length ≤ behind.length := by
  by_cases hne : behind' = []
  · simp [hne]
  · rw [← List.getLast?_append_of_ne_nil whole' hne] at hlast
    have hmod := mt (baseTen_mod_ten (List.append_ne_nil_of_right_ne_nil whole' hne)).1 hlast
    have hexponent := Decimal.exponent_le_of_value_eq h hmod
    simp only at hexponent
    omega

/-- If no zero ends the digits behind the point, the value says how many they are, and what number
all the digits write. -/
theorem point_unique (hlast : behind.getLast? ≠ some 0) (hlast' : behind'.getLast? ≠ some 0) :
    behind.length = behind'.length ∧
      baseTen ((whole ++ behind).map Fin.val) = baseTen ((whole' ++ behind').map Fin.val) := by
  have hlength := le_antisymm (behind_length_le h.symm hlast) (behind_length_le h hlast')
  refine ⟨hlength, ?_⟩
  have hten : (10 : ℚ) ^ (k - behind.length) ≠ 0 := by positivity
  rw [← hlength] at h
  exact Nat.cast_inj.1 (mul_right_cancel₀ hten h)

end

/-! ## Layouts -/

/-- The text is a magnitude in positional layout: with a digit in front of the point, but no zero in
front of others there, and none at the end behind the point.  Without digits behind it there is no
point. -/
inductive Positional : List Char → ℚ → Prop
  | mk {whole behind : List (Fin 10)} (whole_ne : whole ≠ [])
      (leading : whole.head? = some 0 → whole = [0]) (last : behind.getLast? ≠ some 0) :
      Positional (whole.map digitChar ++ behindText "" behind)
        (⟨baseTen ((whole ++ behind).map Fin.val), -behind.length⟩ : Decimal).value

/-- The text is a magnitude in scientific layout, with the power `k`: one digit stands in front of
the point, which is no zero, and none at the end behind it.  The power has a sign and two digits, or
more without a zero in front. -/
inductive Scientific (k : Int) : List Char → ℚ → Prop
  | mk {first : Fin 10} {others exponent : List (Fin 10)} (first_ne : first ≠ 0)
      (last : others.getLast? ≠ some 0) (two_le : 2 ≤ exponent.length)
      (unpadded : exponent.head? = some 0 → exponent.length = 2)
      (size : baseTen (exponent.map Fin.val) = k.natAbs) :
      Scientific k (digitChar first :: (behindText "" others ++
          'e' :: (if k < 0 then '-' else '+') :: exponent.map digitChar))
        (⟨baseTen ((first :: others).map Fin.val), k - others.length⟩ : Decimal).value

theorem Positional.unique {text text' : List Char} {q q' : ℚ} (h : Positional text q)
    (h' : Positional text' q') (heq : q = q') : text = text' := by
  cases h with
  | @mk whole behind whole_ne leading last =>
  cases h' with
  | @mk whole' behind' whole_ne' leading' last' =>
  rw [← Int.zero_sub, ← Int.zero_sub] at heq
  obtain ⟨hbehind, hnumber⟩ := point_unique heq last last'
  have hle {xs ys : List (Fin 10)} (hxs : xs ≠ []) (hys : ys ≠ [])
      (hleading : ys.head? = some 0 → ys = [0]) {xs' ys' : List (Fin 10)}
      (hlength : xs'.length = ys'.length)
      (hvalue : baseTen ((xs ++ xs').map Fin.val) = baseTen ((ys ++ ys').map Fin.val)) :
      (ys ++ ys').length ≤ (xs ++ xs').length := by
    refine length_le_of_head hvalue fun hzero => ?_
    rw [List.head?_append_of_ne_nil _ hys] at hzero
    have hpos := List.length_pos_iff.2 hxs
    rw [hleading hzero, List.length_append, List.length_append, List.length_singleton, hlength]
    omega
  have hlength := le_antisymm (hle whole_ne' whole_ne leading hbehind.symm hnumber.symm)
    (hle whole_ne whole_ne' leading' hbehind hnumber)
  obtain ⟨rfl, rfl⟩ := List.append_inj' (digits_injective hlength hnumber) hbehind
  rfl

theorem Scientific.unique {k : Int} {text text' : List Char} {q q' : ℚ} (h : Scientific k text q)
    (h' : Scientific k text' q') (heq : q = q') : text = text' := by
  cases h with
  | @mk first others exponent _ last two_le unpadded size =>
  cases h' with
  | @mk first' others' exponent' _ last' two_le' unpadded' size' =>
  obtain ⟨hothers, hnumber⟩ := @point_unique [first] others [first'] others' k heq last last'
  have hdigits := digits_injective (by simp [hothers]) hnumber
  obtain ⟨rfl, rfl⟩ := List.cons.inj hdigits
  have hsize := size.trans size'.symm
  have hlength : exponent.length = exponent'.length :=
    le_antisymm (length_le_of_head hsize.symm fun hzero => (unpadded hzero).trans_le two_le')
      (length_le_of_head hsize fun hzero => (unpadded' hzero).trans_le two_le)
  obtain rfl := digits_injective hlength hsize
  rfl

section

variable {d : Decimal}

/-- The digits of a number that ends with no zero neither begin nor end with one. -/
theorem exists_trimmed (h : d.coefficient % 10 ≠ 0) : ∃ (first : Fin 10) (others : List (Fin 10)),
    first ≠ 0 ∧ d.digits = (first :: others).map digitChar ∧
      baseTen ((first :: others).map Fin.val) = d.coefficient ∧
        (first :: others).getLast? ≠ some 0 := by
  obtain ⟨first, others, hfirst, hdigits, hvalue⟩ :=
    exists_leading (show d.coefficient ≠ 0 by omega)
  refine ⟨first, others, hfirst, hdigits, hvalue, ?_⟩
  rw [← hvalue] at h
  exact mt (baseTen_mod_ten (List.cons_ne_nil _ _)).2 h

theorem positional_positional (h : d.coefficient % 10 ≠ 0) :
    Positional (d.positional "").toList d.value := by
  obtain ⟨first, others, hfirst, hdigits, hvalue, hlast⟩ := exists_trimmed h
  have hne : first :: others ≠ [] := List.cons_ne_nil _ _
  obtain ⟨whole, behind, hplaced, htext⟩ := positional_digits "" hne hdigits
  have hplace := hplaced.value_eq
  rw [hvalue] at hplace
  rw [htext, show d.value = _ from hplace]
  exact .mk (hplaced.whole_ne_nil hne)
    (hplaced.leading hne fun hzero => hfirst (Option.some.inj hzero)) (hplaced.last hne hlast)

theorem scientific_scientific (h : d.coefficient % 10 ≠ 0) :
    Scientific d.leadingPower (d.scientific exponentStyle).toList d.value := by
  obtain ⟨first, others, hfirst, hdigits, hvalue, hlast⟩ := exists_trimmed h
  obtain ⟨htext, hexponent⟩ := scientific_digits exponentStyle hdigits
  obtain ⟨exponent, hpower, two_le, unpadded, size⟩ :=
    power_digits (show 0 < exponentStyle.width by decide) d.leadingPower
  have hothers : others.getLast? ≠ some 0 := by
    cases others with
    | nil => simp
    | cons second others => rwa [List.getLast?_cons_cons] at hlast
  have hsign : (if d.leadingPower < 0 then ['-'] else exponentStyle.plus.toList) =
      [if d.leadingPower < 0 then '-' else '+'] := by
    split_ifs
    · rfl
    · rfl
  have hmk := Scientific.mk hfirst hothers two_le unpadded size
  rw [hvalue, hexponent] at hmk
  rw [htext, hpower, hsign]
  exact hmk

end

/-! ## Magnitudes and parts -/

/-- The text of the digits of a decimal, which is positional exactly if the leading power is from -4
to 15. -/
inductive DecimalText (d : Decimal) (text : List Char) : Prop
  | positional (middle : -4 ≤ d.leadingPower ∧ d.leadingPower ≤ 15)
      (layout : Positional text d.value)
  | scientific (outside : ¬(-4 ≤ d.leadingPower ∧ d.leadingPower ≤ 15))
      (layout : Scientific d.leadingPower text d.value)

/-- The text of a magnitude: of zero, of the infinity, or of the digits of its shortest decimal. -/
inductive MagnitudeText : Nat → List Char → Prop
  | zero : MagnitudeText 0 ['0']
  | infinite : MagnitudeText infinityBits ['i', 'n', 'f']
  | finite {word : Nat} {d : Decimal} {text : List Char} (pos : 0 < word)
      (lt : word < infinityBits) (shortest : d.IsShortest word) (digits : DecimalText d text) :
      MagnitudeText word text

/-- The text of a part: a minus stands in front of a number with its sign bit set, and what is not a
number has neither sign nor payload. -/
inductive PartText : UInt64 → List Char → Prop
  | notNumber {bits : UInt64} (nan : isNotNumber bits = true) : PartText bits ['n', 'a', 'n']
  | number (negative : Bool) {word : Nat} {text : List Char} (le : word ≤ infinityBits)
      (magnitude : MagnitudeText word text) :
      PartText (signedBits negative word) ((if negative then ['-'] else []) ++ text)

theorem DecimalText.unique {d : Decimal} {text text' : List Char} (h : DecimalText d text)
    (h' : DecimalText d text') : text = text' := by
  cases h with
  | positional middle layout =>
    cases h' with
    | positional _ layout' => exact layout.unique layout' rfl
    | scientific outside => exact absurd middle outside
  | scientific outside layout =>
    cases h' with
    | positional middle => exact absurd middle outside
    | scientific _ layout' => exact layout.unique layout' rfl

theorem MagnitudeText.unique {word word' : Nat} {text text' : List Char}
    (h : MagnitudeText word text) (h' : MagnitudeText word' text') (heq : word = word') :
    text = text' := by
  have hinfinity : 0 < infinityBits := by decide
  cases h with
  | zero =>
    cases h' with
    | zero => rfl
    | infinite => exact absurd heq hinfinity.ne
    | finite pos => exact absurd heq pos.ne
  | infinite =>
    cases h' with
    | zero => exact absurd heq hinfinity.ne'
    | infinite => rfl
    | finite _ lt => exact absurd heq lt.ne'
  | finite pos lt shortest digits =>
    cases h' with
    | zero => exact absurd heq pos.ne'
    | infinite => exact absurd heq lt.ne
    | finite _ _ shortest' digits' =>
      obtain rfl := shortest.unique pos lt (heq ▸ shortest')
      exact digits.unique digits'

/-- A part has one text. -/
theorem PartText.unique {bits bits' : UInt64} {text text' : List Char} (h : PartText bits text)
    (h' : PartText bits' text') (heq : bits = bits') : text = text' := by
  cases h with
  | notNumber nan =>
    cases h' with
    | notNumber => rfl
    | number _ le =>
      rw [heq, isNotNumber_signedBits le] at nan
      exact nomatch nan
  | number negative le magnitude =>
    cases h' with
    | notNumber nan =>
      rw [← heq, isNotNumber_signedBits le] at nan
      exact nomatch nan
    | number negative' le' magnitude' =>
      obtain ⟨rfl, hword⟩ :=
        signedBits_injective (lt_of_le_infinityBits le) (lt_of_le_infinityBits le') heq
      rw [magnitude.unique magnitude' hword]

theorem decimalText_magnitudeText {word : Nat} (hpos : 0 < word) (hlt : word < infinityBits) :
    DecimalText (Decimal.shortest .up (significand word) (power word))
      (magnitudeText (significand word) (power word)).toList := by
  have hshortest := Decimal.isShortest_shortest hpos hlt
  obtain ⟨hcoefficient, -, -⟩ := Decimal.leadingPower_bounds hpos hlt hshortest.nearest
  have hmod := hshortest.coefficient_mod_ten hcoefficient
  have hmiddle := hshortest.isMiddling_iff hpos hlt
  unfold magnitudeText
  rw [if_neg (significand_pos hpos).ne']
  simp only
  split_ifs with hmiddling
  · exact .positional (hmiddle.1 hmiddling) (positional_positional hmod)
  · exact .scientific (mt hmiddle.2 hmiddling) (scientific_scientific hmod)

theorem magnitudeText_partText {word : Nat} (h : word ≤ infinityBits) :
    MagnitudeText word (partText (signedBits false word)).toList := by
  unfold partText
  rw [ofBits_signedBits h]
  split_ifs with hinfinite
  · subst hinfinite
    exact .infinite
  · rcases Nat.eq_zero_or_pos word with rfl | hpos
    · exact .zero
    · have hlt := lt_of_le_of_ne h hinfinite
      exact .finite hpos hlt (Decimal.isShortest_shortest hpos hlt)
        (decimalText_magnitudeText hpos hlt)

/-- The text that is written for a part is its text. -/
theorem partText_partText (bits : UInt64) : PartText bits (partText bits).toList := by
  rcases bits_cases bits with hnan | ⟨negative, word, hword, rfl⟩
  · rw [partText_of_isNotNumber hnan]
    exact .notNumber hnan
  · have hsign : optionText Sign.text (writtenSign negative) = if negative then ['-'] else [] := by
      cases negative <;> rfl
    rw [partText_signedBits hword, hsign]
    exact .number negative hword (magnitudeText_partText hword)

/-! ## Complex numbers -/

/-- The text of a complex number.  The sign between two parts is a minus exactly if the imaginary
part is a number with its sign bit set. -/
inductive Displays : Complex → List Char → Prop
  | imaginary {im : UInt64} {text : List Char} (part : PartText im text) :
      Displays ⟨signedBits false 0, im⟩ (text ++ ['j'])
  | both {re im : UInt64} {reText imText : List Char} (nonzero : re ≠ signedBits false 0)
      (rePart : PartText re reText) (imPart : PartText (magnitudeBits im) imText) :
      Displays ⟨re, im⟩ ('(' :: (reText ++
        (if isNotNumber im = false ∧ signBit im = true then '-' else '+') ::
          (imText ++ ['j', ')'])))

theorem Displays.unique {c c' : Complex} {text text' : List Char} (h : Displays c text)
    (h' : Displays c' text') (heq : c = c') : text = text' := by
  cases h with
  | imaginary part =>
    cases h' with
    | imaginary part' => rw [part.unique part' (congrArg Complex.im heq)]
    | both nonzero => exact absurd (congrArg Complex.re heq).symm nonzero
  | both nonzero rePart imPart =>
    cases h' with
    | imaginary => exact absurd (congrArg Complex.re heq) nonzero
    | both _ rePart' imPart' =>
      obtain rfl : _ = _ := congrArg Complex.im heq
      rw [rePart.unique rePart' (congrArg Complex.re heq), imPart.unique imPart' rfl]

theorem isPlainZero_iff {bits : UInt64} :
    isPlainZero bits = true ↔ bits = signedBits false 0 := beq_iff_eq

theorem hasMinus_iff {bits : UInt64} :
    hasMinus bits = true ↔ isNotNumber bits = false ∧ signBit bits = true := by
  rw [hasMinus, Bool.and_eq_true, Bool.not_eq_true', and_comm]

theorem displays_text (c : Complex) : Displays c c.text.toList := by
  obtain ⟨re, im⟩ := c
  by_cases hzero : isPlainZero re = true
  · obtain rfl := isPlainZero_iff.1 hzero
    rw [text, if_pos hzero, String.toList_append]
    exact .imaginary (partText_partText im)
  · have hboth := Displays.both (mt isPlainZero_iff.2 hzero) (partText_partText re)
      (partText_partText (magnitudeBits im))
    simp only [← hasMinus_iff] at hboth
    have hsign : (if hasMinus im then "-" else "+").toList =
        [if hasMinus im = true then '-' else '+'] := by
      cases hasMinus im <;> rfl
    rw [text, if_neg hzero]
    simpa [hsign] using hboth

/-- A complex number is written exactly as the rules say. -/
theorem text_eq_iff (c : Complex) (text : String) : c.text = text ↔ Displays c text.toList := by
  constructor
  · rintro rfl
    exact displays_text c
  · intro h
    exact String.toList_injective ((displays_text c).unique h rfl)

-- What is not a number is written without its sign bit.
example : (⟨0x3ff0000000000000, 0xfff8000000000001⟩ : Complex).text = "(1+nanj)" := by
  decide +kernel

end RecordCheck.Complex
