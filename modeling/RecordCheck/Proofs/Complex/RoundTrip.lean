import RecordCheck.Proofs.Complex.Written
import RecordCheck.Proofs.Binary64.Words
set_option autoImplicit false

/-!
# Complex: reading back what is written

A part is written as a number of the grammar that names it, so the text of a complex number is that
of a derivation, bare or in parentheses.  Main statement: `parse_text`.
-/

namespace RecordCheck.Complex

open Binary64

/-! ## Literals need no trimming -/

theorem Literal.trims_text (t : Literal) : Text.Trims t.text t.text :=
  ⟨[], [], (List.append_nil _).symm, nofun, nofun,
    fun c hc => (t.text_plain c (List.mem_of_mem_head? hc)).2.1,
    fun c hc => (t.text_plain c (List.mem_of_mem_getLast? hc)).2.1⟩

theorem Literal.bare_text (t : Literal) : Bare t.text t.text := by
  refine .plain t.trims_text fun inside h => ?_
  have := (t.text_plain '(' (by rw [h]; exact List.mem_cons_self)).2.2
  exact this rfl

theorem Literal.bare_enclosed (t : Literal) : Bare ('(' :: (t.text ++ [')'])) t.text := by
  refine .enclosed t.text ?_ t.trims_text
  refine ⟨[], [], (List.append_nil _).symm, nofun, nofun, ?_, ?_⟩
  · intro c hc
    obtain rfl : '(' = c := Option.some.inj hc
    decide
  · intro c hc
    rw [← List.cons_append, List.getLast?_concat] at hc
    obtain rfl : ')' = c := Option.some.inj hc
    decide

theorem parse_ofList {text : List Char} {t : Literal} {c : Complex} (hbare : Bare text t.text)
    (hnames : t.Names c) : parse (String.ofList text) = .ok c := by
  refine parse_eq_ok_iff.2 ⟨t, ?_, hnames⟩
  rw [String.toList_ofList]
  exact bare_iff.1 hbare

/-! ## Parts -/

/-- The sign that is written before a number. -/
def writtenSign (negative : Bool) : Option Sign := if negative then some .minus else none

theorem isMinus_writtenSign (negative : Bool) : isMinus (writtenSign negative) = negative := by
  cases negative <;> rfl

/-- Both words are the same, or neither is that of a number. -/
def SamePart (bits bits' : UInt64) : Prop :=
  bits = bits' ∨ isNotNumber bits = true ∧ isNotNumber bits' = true

theorem isNotNumber_notNumber (negative : Bool) :
    isNotNumber (signedBits negative notNumberBits) = true := by
  cases negative <;> decide +kernel

section

variable {negative : Bool} {word : Nat}

theorem hasMinus_signedBits (h : word ≤ infinityBits) :
    hasMinus (signedBits negative word) = negative := by
  rw [hasMinus, signBit_signedBits (lt_of_le_infinityBits h), isNotNumber_signedBits h,
    Bool.not_false, Bool.and_true]

theorem magnitudeBits_signedBits (h : word < twoTo 63) :
    magnitudeBits (signedBits negative word) = signedBits false word := by
  have hsign : twoTo 63 = 2 ^ 63 := rfl
  have hlt : word < 2 ^ 63 := h
  rw [magnitudeBits, toNat_signedBits h, signedBits, hsign]
  congr 1
  cases negative <;> simp only [if_true, Bool.false_eq_true, if_false] <;> omega

theorem partText_signedBits (h : word ≤ infinityBits) :
    (partText (signedBits negative word)).toList =
      optionText Sign.text (writtenSign negative) ++ (partText (signedBits false word)).toList := by
  unfold partText
  rw [ofBits_signedBits h, ofBits_signedBits h]
  split_ifs <;> cases negative <;> simp [writtenSign, optionText, Sign.text]

theorem exists_numeral (h : word ≤ infinityBits) : ∃ n : Numeral,
    n.text = (partText (signedBits false word)).toList ∧
      ∀ negative, n.Names negative (signedBits negative word) := by
  unfold partText
  rw [ofBits_signedBits h]
  split_ifs with hinfinite
  · subst hinfinite
    exact ⟨.named .inf ['i', 'n', 'f'] rfl, rfl, fun _ => rfl⟩
  · obtain ⟨q, ⟨n, htext, hnames⟩, hnearest⟩ := magnitudeText_writes (lt_of_le_of_ne h hinfinite)
    exact ⟨n, htext, fun negative => (hnames negative _).2 ⟨word, hnearest, rfl⟩⟩

end

theorem partText_of_isNotNumber {bits : UInt64} (h : isNotNumber bits = true) :
    partText bits = "nan" := by
  rw [isNotNumber, beq_iff_eq] at h
  rw [partText, h]

/-- What is not a number is so without its sign bit. -/
theorem isNotNumber_magnitudeBits (bits : UInt64) :
    isNotNumber (magnitudeBits bits) = isNotNumber bits := by
  have hsign : twoTo 63 = 2 ^ 63 := rfl
  have hbinade : binade = 2 ^ 52 := by decide
  have hlt : bits.toNat % 2 ^ 63 < 2 ^ 64 := (Nat.mod_lt _ (by decide)).trans (by decide)
  rw [Bool.eq_iff_iff, isNotNumber_iff, isNotNumber_iff, magnitudeBits, hsign, UInt64.toNat_ofNat',
    Nat.mod_eq_of_lt hlt, hbinade]
  omega

/-- What is written for a word is the number of its magnitude, behind a minus if it has one; the
number names the word, or both are not numbers. -/
theorem partText_named (bits : UInt64) : ∃ (n : Numeral) (bits' : UInt64),
    SamePart bits bits' ∧ n.Names (hasMinus bits) bits' ∧
    n.text = (partText (magnitudeBits bits)).toList ∧
    (partText bits).toList = optionText Sign.text (writtenSign (hasMinus bits)) ++ n.text := by
  rcases bits_cases bits with hnan | ⟨negative, word, hword, rfl⟩
  · have hmagnitude := (isNotNumber_magnitudeBits bits).trans hnan
    have hminus : hasMinus bits = false := by rw [hasMinus, hnan, Bool.not_true, Bool.and_false]
    rw [hminus, partText_of_isNotNumber hnan, partText_of_isNotNumber hmagnitude]
    exact ⟨.named .nan ['n', 'a', 'n'] rfl, _, .inr ⟨hnan, isNotNumber_notNumber false⟩, rfl, rfl,
      rfl⟩
  · obtain ⟨n, htext, hnames⟩ := exists_numeral hword
    rw [hasMinus_signedBits hword, magnitudeBits_signedBits (lt_of_le_infinityBits hword)]
    refine ⟨n, _, .inl rfl, hnames negative, htext, ?_⟩
    rw [partText_signedBits hword, htext]

theorem text_imaginary {re im : UInt64} {n : Numeral} (hzero : isPlainZero re = true)
    (hpart : (partText im).toList = optionText Sign.text (writtenSign (hasMinus im)) ++ n.text) :
    text ⟨re, im⟩ = String.ofList
      (Literal.imaginary (writtenSign (hasMinus im)) (some n) false).text := by
  apply String.toList_injective
  rw [text, if_pos hzero, String.toList_append, hpart, List.append_assoc]
  simp only [String.toList_ofList]
  rfl

/-- The sign between two parts. -/
def separator (negative : Bool) : Sign := if negative then .minus else .plus

theorem text_both {re im : UInt64} {m n : Numeral} (hzero : isPlainZero re ≠ true)
    (hre : (partText re).toList = optionText Sign.text (writtenSign (hasMinus re)) ++ m.text)
    (him : n.text = (partText (magnitudeBits im)).toList) :
    text ⟨re, im⟩ = String.ofList ('(' :: ((Literal.both (writtenSign (hasMinus re)) m
      (separator (hasMinus im)) (some n) false).text ++ [')'])) := by
  have hsign : (if hasMinus im then "-" else "+").toList = (separator (hasMinus im)).text := by
    cases hasMinus im <;> rfl
  apply String.toList_injective
  rw [text, if_neg hzero]
  simp only [String.toList_append, hre, ← him, hsign, String.toList_ofList, Literal.text,
    List.append_assoc]
  rfl

/-- Every complex number is read back from its text, bit by bit; for a part that is not a number
some word is read back that is not that of a number either. -/
theorem parse_text (c : Complex) :
    ∃ c', parse c.text = .ok c' ∧ SamePart c.re c'.re ∧ SamePart c.im c'.im := by
  obtain ⟨re, im⟩ := c
  obtain ⟨n, im', hsame, hn, htext, hpart⟩ := partText_named im
  by_cases hzero : isPlainZero re = true
  · rw [text_imaginary hzero hpart]
    refine ⟨⟨0, im'⟩, parse_ofList (Literal.bare_text _) ⟨rfl, ?_⟩,
      .inl (beq_iff_eq.1 hzero), hsame⟩
    rw [isMinus_writtenSign]
    exact hn
  · obtain ⟨m, re', hsame', hm, -, hpart'⟩ := partText_named re
    rw [text_both hzero hpart' htext]
    refine ⟨⟨re', im'⟩, parse_ofList (Literal.bare_enclosed _) ⟨?_, ?_⟩, hsame', hsame⟩
    · rw [isMinus_writtenSign]
      exact hm
    · have hsign : isMinus (some (separator (hasMinus im))) = hasMinus im := by
        cases hasMinus im <;> rfl
      rw [hsign]
      exact hn

end RecordCheck.Complex
