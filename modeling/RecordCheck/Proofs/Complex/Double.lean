import RecordCheck.Proofs.Complex.Derivation
import RecordCheck.Proofs.Complex.Pattern
set_option autoImplicit false

/-!
# Complex: the parts of a match

The text of a number without its underscores is that of a number too, and the reader of doubles
takes it all.  It takes no text with a character beyond ASCII, so a part that the expression matches
is read if it has a derivation and only then: `parseBits?_text`, `parseBits?_eq_none`, and the same
for imaginary parts.
-/

namespace RecordCheck.Complex

open Binary64

/-! ## Numbers without underscores -/

/-- The same digits without underscores. -/
def Digits.joined (ds : Digits) : Digits := .ofList ds.first (ds.others.map Prod.snd)

/-- The same power without underscores. -/
def Power.joined (p : Power) : Power := { p with digits := p.digits.joined }

/-- The same number without underscores. -/
def Numeral.joined : Numeral → Numeral
  | .whole digits power => .whole digits.joined (power.map Power.joined)
  | .pointed digits behind power =>
    .pointed digits.joined (behind.map Digits.joined) (power.map Power.joined)
  | .fraction digits power => .fraction digits.joined (power.map Power.joined)
  | .named name letters spells => .named name letters spells

theorem Digits.text_joined (ds : Digits) :
    ds.joined.text = (ds.first :: ds.others.map Prod.snd).map digitChar := text_ofList _ _

theorem Digits.values_joined (ds : Digits) : ds.joined.values = ds.values := by
  rw [joined, values_ofList, List.map_cons, List.map_map]
  rfl

theorem filter_cons {c : Char} (h : c ≠ '_') (rest : List Char) :
    (c :: rest).filter (· != '_') = c :: rest.filter (· != '_') :=
  List.filter_cons_of_pos (bne_iff_ne.2 h)

theorem Digits.filter_text (ds : Digits) : ds.text.filter (· != '_') = ds.joined.text := by
  have hothers : ∀ others, (othersText others).filter (· != '_') =
      (others.map Prod.snd).map digitChar := by
    intro others
    induction others with
    | nil => rfl
    | cons d others ih =>
      obtain ⟨_ | _, d⟩ := d
      all_goals
        refine (filter_cons (digitChar_ne_underscore d) _).trans ?_
        exact congrArg (digitChar d :: ·) ih
  rw [text_joined, text, filter_cons (digitChar_ne_underscore ds.first), hothers]
  rfl

theorem Sign.filter_text (sign : Option Sign) :
    (optionText Sign.text sign).filter (· != '_') = optionText Sign.text sign := by
  rcases sign with _ | _ | _ <;> rfl

theorem Power.filter_text (power : Option Power) :
    (optionText Power.text power).filter (· != '_') =
      optionText Power.text (power.map Power.joined) := by
  cases power with
  | none => rfl
  | some p =>
    have hletter : (if p.capital then 'E' else 'e') ≠ '_' := by
      cases p.capital <;> decide
    rw [optionText, text, filter_cons hletter, List.filter_append, Sign.filter_text,
      Digits.filter_text]
    rfl

theorem Name.filter_letters {name : Name} {letters : List Char}
    (spells : letters.map Char.toLower = name.letters) :
    letters.filter (· != '_') = letters := by
  refine List.filter_eq_self.2 fun c hc => bne_iff_ne.2 ?_
  rintro rfl
  have hmem : '_'.toLower ∈ name.letters := spells ▸ List.mem_map_of_mem hc
  revert hmem
  cases name <;> decide

theorem Numeral.filter_text (n : Numeral) : n.text.filter (· != '_') = n.joined.text := by
  cases n with
  | whole digits power =>
    rw [text, List.filter_append, Digits.filter_text, Power.filter_text]
    rfl
  | pointed digits behind power =>
    have hbehind : (optionText Digits.text behind).filter (· != '_') =
        optionText Digits.text (behind.map Digits.joined) := by
      cases behind with
      | none => rfl
      | some ds => exact ds.filter_text
    rw [text, List.filter_append, Digits.filter_text, List.filter_cons_of_pos rfl,
      List.filter_append, hbehind, Power.filter_text]
    rfl
  | fraction digits power =>
    rw [text, List.filter_cons_of_pos rfl, List.filter_append, Digits.filter_text,
      Power.filter_text]
    rfl
  | named name letters spells => exact Name.filter_letters spells

/-! ## The reader of doubles takes all of a number -/

theorem spanDigits_of_noDigit {text : List Char} (h : NoDigit text) :
    spanDigits text = ([], text) := by
  cases text with
  | nil => rfl
  | cons c rest => simp only [spanDigits, (h c rfl).1]

theorem spanDigits_digitChar (d : Fin 10) (rest : List Char) :
    spanDigits (digitChar d :: rest) = (d.val :: (spanDigits rest).1, (spanDigits rest).2) := by
  simp only [spanDigits, digitValue?_digitChar]

theorem spanDigits_map (ds : List (Fin 10)) {rest : List Char} (h : NoDigit rest) :
    spanDigits (ds.map digitChar ++ rest) = (ds.map Fin.val, rest) := by
  induction ds with
  | nil => exact spanDigits_of_noDigit h
  | cons d ds ih => rw [List.map_cons, List.cons_append, spanDigits_digitChar, ih, List.map_cons]

theorem spanDigits_joined (ds : Digits) {rest : List Char} (h : NoDigit rest) :
    spanDigits (ds.joined.text ++ rest) = (ds.values, rest) := by
  rw [Digits.text_joined, spanDigits_map _ h, ← Digits.values_joined, Digits.joined,
    Digits.values_ofList]

theorem powerOfText?_joined (power : Option Power) :
    powerOfText? (optionText Power.text (power.map Power.joined)) = some (powerValue power) := by
  cases power with
  | none => rfl
  | some p =>
    have hsign := readSign_text p.sign (p.digits.joined.text_noSign [])
    have hdigits := spanDigits_joined p.digits ends_nil.noDigit
    rw [List.append_nil] at hsign hdigits
    have hvalues : p.digits.values.isEmpty = false := rfl
    rw [powerValue_some, Option.map_some, optionText, Power.text, powerOfText?,
      if_pos (Power.letter _)]
    simp only [Power.joined, hsign, hdigits, hvalues, List.isEmpty_nil, Bool.not_true,
      Bool.or_false, Bool.false_eq_true, if_false, ofDigits_eq_baseTen]

theorem numberOfText?_eq {text behind rest : List Char} {whole fraction : List Nat}
    (hwhole : spanDigits text = (whole, behind))
    (hfraction : readFraction behind = (fraction, rest))
    (hsome : (whole.isEmpty && fraction.isEmpty) = false) :
    numberOfText? text = (powerOfText? rest).map (decimalOf whole fraction) := by
  simp only [numberOfText?, hwhole, hfraction, hsome, Bool.false_eq_true, if_false]

theorem readFraction_power (power : Option Power) :
    readFraction (optionText Power.text power) = ([], optionText Power.text power) := by
  cases power with
  | none => rfl
  | some p =>
    obtain ⟨_ | _, sign, digits⟩ := p <;> rfl

/-- Of the texts that begin with neither of the first letters of the names only those of numbers
name a magnitude. -/
theorem magnitudeOfText?_eq {text : List Char}
    (h : ∀ c ∈ text.head?, c.toLower ≠ 'n' ∧ c.toLower ≠ 'i') :
    magnitudeOfText? text = numberOfText? text := by
  cases text with
  | nil => rfl
  | cons c rest =>
    obtain ⟨hn, hi⟩ := h c rfl
    simp only [magnitudeOfText?, List.map_cons, List.cons.injEq, hn, hi, false_and, or_self,
      if_false]

theorem magnitudeOfText?_digits (ds : Digits) (rest : List Char) :
    magnitudeOfText? (ds.text ++ rest) = numberOfText? (ds.text ++ rest) := by
  refine magnitudeOfText?_eq fun c hc => ?_
  obtain rfl : digitChar ds.first = c := Option.some.inj hc
  exact (by decide : ∀ d : Fin 10, (digitChar d).toLower ≠ 'n' ∧ (digitChar d).toLower ≠ 'i') _

theorem magnitudeOfText?_joined (n : Numeral) :
    magnitudeOfText? n.joined.text = some n.toMagnitude := by
  cases n with
  | whole digits power =>
    have hspan := spanDigits_joined digits (@Power.noDigit (power.map Power.joined) [] ends_nil)
    rw [List.append_nil] at hspan
    rw [Numeral.joined, Numeral.text, magnitudeOfText?_digits,
      numberOfText?_eq hspan (readFraction_power _) rfl, powerOfText?_joined]
    rfl
  | pointed digits behind power =>
    have hpower := @Power.noDigit (power.map Power.joined) [] ends_nil
    rw [List.append_nil] at hpower
    have hspan := spanDigits_joined digits (noDigit_point
      (optionText Digits.text (behind.map Digits.joined) ++
        optionText Power.text (power.map Power.joined)))
    have hfraction : readFraction ('.' :: (optionText Digits.text (behind.map Digits.joined) ++
        optionText Power.text (power.map Power.joined))) =
          ((behind.map Digits.values).getD [], optionText Power.text (power.map Power.joined)) := by
      cases behind with
      | none => exact spanDigits_of_noDigit hpower
      | some ds => exact spanDigits_joined ds hpower
    rw [Numeral.joined, Numeral.text, magnitudeOfText?_digits,
      numberOfText?_eq hspan hfraction rfl, powerOfText?_joined]
    cases behind <;> rfl
  | fraction digits power =>
    have hpower := @Power.noDigit (power.map Power.joined) [] ends_nil
    rw [List.append_nil] at hpower
    have hspan := spanDigits_of_noDigit (noDigit_point
      (digits.joined.text ++ optionText Power.text (power.map Power.joined)))
    have hpoint : ∀ rest, magnitudeOfText? ('.' :: rest) = numberOfText? ('.' :: rest) := by
      refine fun rest => magnitudeOfText?_eq fun c hc => ?_
      obtain rfl : '.' = c := Option.some.inj hc
      decide
    rw [Numeral.joined, Numeral.text, hpoint,
      numberOfText?_eq hspan (spanDigits_joined digits hpower) rfl, powerOfText?_joined]
    rfl
  | named name letters spells =>
    cases name <;> simp [Numeral.joined, Numeral.text, magnitudeOfText?, spells, Name.letters,
      Numeral.toMagnitude]

theorem parseBits?_eq (text : List Char) :
    parseBits? text = bitsOfText? (text.filter (· != '_')) := by
  rw [parseBits?]
  split_ifs with hmem
  · rfl
  · rw [List.filter_eq_self.2 fun c hc => bne_iff_ne.2 (ne_of_mem_of_not_mem hc hmem)]

/-- The text of a number with or without a sign is that of its double. -/
theorem parseBits?_text (sign : Option Sign) (n : Numeral) :
    parseBits? (optionText Sign.text sign ++ n.text) =
      some (n.toMagnitude.toBits (isMinus sign)) := by
  have hsign := readSign_text sign (n.joined.noSign [])
  rw [List.append_nil] at hsign
  rw [parseBits?_eq, List.filter_append, Sign.filter_text, Numeral.filter_text, bitsOfText?, hsign,
    isMinus_eq]
  simp only [magnitudeOfText?_joined, Option.map_some]

/-! ## The reader of doubles takes ASCII only -/

theorem ascii_digitChar (d : Fin 10) : (digitChar d).toNat < 128 := (plain_digitChar d).1

theorem ascii_of_spanDigits (text : List Char) :
    ∃ taken, Ascii taken ∧ text = taken ++ (spanDigits text).2 := by
  induction text with
  | nil => exact ⟨[], nofun, rfl⟩
  | cons c rest ih =>
    cases hdigit : digitValue? c with
    | none => exact ⟨[], nofun, by simp only [spanDigits, hdigit, List.nil_append]⟩
    | some n =>
      obtain ⟨d, rfl, -⟩ := digitValue?_eq_some hdigit
      obtain ⟨taken, htaken, hrest⟩ := ih
      refine ⟨digitChar d :: taken, List.forall_mem_cons.2 ⟨ascii_digitChar d, htaken⟩, ?_⟩
      rw [spanDigits_digitChar, List.cons_append, ← hrest]

theorem ascii_of_readSign {text rest : List Char} {negative : Option Bool}
    (h : readSign text = (negative, rest)) (hrest : Ascii rest) : Ascii text := by
  obtain ⟨sign, rfl, -⟩ := readSign_sound h
  refine ascii_append_iff.2 ⟨?_, hrest⟩
  exact fun c hc => (optionText_plain Sign.text_plain sign c hc).1

theorem ascii_of_powerOfText? {text : List Char} {power : Int}
    (h : powerOfText? text = some power) : Ascii text := by
  cases text with
  | nil => exact nofun
  | cons c rest =>
    simp only [powerOfText?] at h
    split_ifs at h with hletter hfault
    all_goals
      obtain ⟨taken, htaken, hspan⟩ := ascii_of_spanDigits (readSign rest).2
      simp only [Bool.or_eq_true, Bool.not_eq_true', not_or, Bool.not_eq_false] at hfault
      rw [List.isEmpty_iff.1 hfault.2, List.append_nil] at hspan
      refine List.forall_mem_cons.2 ⟨?_, ascii_of_readSign rfl (hspan ▸ htaken)⟩
      rcases hletter with rfl | rfl <;> decide

theorem ascii_of_readFraction (text : List Char) :
    ∃ taken, Ascii taken ∧ text = taken ++ (readFraction text).2 := by
  unfold readFraction
  split
  · rename_i rest
    obtain ⟨taken, htaken, hrest⟩ := ascii_of_spanDigits rest
    exact ⟨'.' :: taken, List.forall_mem_cons.2 ⟨by decide, htaken⟩, congrArg ('.' :: ·) hrest⟩
  · exact ⟨[], nofun, rfl⟩

theorem ascii_of_numberOfText? {text : List Char} {m : Magnitude}
    (h : numberOfText? text = some m) : Ascii text := by
  obtain ⟨taken, htaken, htext⟩ := ascii_of_spanDigits text
  obtain ⟨taken', htaken', hbehind⟩ := ascii_of_readFraction (spanDigits text).2
  simp only [numberOfText?] at h
  split_ifs at h
  obtain ⟨power, hpower, -⟩ := Option.map_eq_some_iff.1 h
  rw [htext, hbehind]
  exact ascii_append_iff.2 ⟨htaken, ascii_append_iff.2 ⟨htaken', ascii_of_powerOfText? hpower⟩⟩

theorem ascii_of_map_toLower {text : List Char} (h : Ascii (text.map Char.toLower)) :
    Ascii text := by
  intro c hc
  rcases toLower_cases c with hsame | ⟨⟨-, hhigh⟩, -⟩
  · exact hsame ▸ h _ (List.mem_map_of_mem hc)
  · omega

theorem ascii_of_magnitudeOfText? {text : List Char} {m : Magnitude}
    (h : magnitudeOfText? text = some m) : Ascii text := by
  rw [magnitudeOfText?] at h
  split_ifs at h with hnan hinf
  · refine ascii_of_map_toLower ?_
    rw [hnan]
    decide
  · refine ascii_of_map_toLower ?_
    rcases hinf with hinf | hinf <;> rw [hinf] <;> decide
  · exact ascii_of_numberOfText? h

theorem ascii_of_bitsOfText? {text : List Char} {bits : UInt64}
    (h : bitsOfText? text = some bits) : Ascii text := by
  obtain ⟨m, hm, -⟩ := Option.map_eq_some_iff.1 h
  exact ascii_of_readSign rfl (ascii_of_magnitudeOfText? hm)

theorem parseBits?_eq_none {text : List Char} (h : ¬Ascii text) : parseBits? text = none := by
  rw [parseBits?_eq]
  by_contra hsome
  obtain ⟨bits, hbits⟩ := Option.ne_none_iff_exists'.1 hsome
  refine h fun c hc => ?_
  by_cases hc' : c = '_'
  · exact hc' ▸ by decide
  · exact ascii_of_bitsOfText? hbits c (List.mem_filter.2 ⟨hc, bne_iff_ne.2 hc'⟩)

/-! ## Imaginary parts -/

theorem oneBits_eq (negative : Bool) :
    oneBits negative = (Magnitude.decimal ⟨1, 0⟩).toBits negative := by
  cases negative <;> decide +kernel

theorem parseImaginary?_append (coefficient : List Char) (capital : Bool) :
    parseImaginary? (coefficient ++ unitText capital) = some
      (if coefficient = [] ∨ coefficient = ['+'] then some (oneBits false)
      else if coefficient = ['-'] then some (oneBits true)
      else parseBits? coefficient) := by
  have hsize : (if capital then 'J' else 'j').utf8Size = 1 := by cases capital <;> rfl
  have hcut : withoutLastByte? (coefficient ++ unitText capital) = some coefficient := by
    rw [withoutLastByte?, unitText, List.getLast?_concat]
    simp only [hsize, if_true, List.dropLast_concat]
  rw [parseImaginary?, hcut]
  rfl

theorem parseImaginary?_text (sign : Option Sign) (im : Option Numeral) (capital : Bool) :
    parseImaginary?
        (optionText Sign.text sign ++ (optionText Numeral.text im ++ unitText capital)) =
      some (some (imaginaryValue (isMinus sign) im)) := by
  rw [← List.append_assoc, parseImaginary?_append]
  cases im with
  | none =>
    rw [imaginaryValue, ← oneBits_eq]
    rcases sign with _ | _ | _ <;> rfl
  | some n =>
    have hparse := parseBits?_text sign n
    have hbare : ∀ text, parseBits? text = none → optionText Sign.text sign ++ n.text ≠ text := by
      rintro text hnone rfl
      exact nomatch hnone.symm.trans hparse
    rw [optionText, if_neg (not_or.2 ⟨hbare _ rfl, hbare _ rfl⟩), if_neg (hbare _ rfl), hparse]
    rfl

/-- A text that ends with the imaginary unit can be cut there; with a character beyond ASCII before
that it is no imaginary part. -/
theorem parseImaginary?_eq_none {r : Text.Regex} {text : List Char}
    (h : Text.Regex.Accepts (.seq r Pattern.imaginary) text) (hforeign : ¬Ascii text) :
    parseImaginary? text = some none := by
  cases h with
  | seq hfirst hrest =>
    cases hrest with
    | @seq _ _ number unit _ hunit =>
      rename_i first _
      obtain ⟨capital, rfl⟩ := exists_unitText hunit
      have hcoefficient : ¬Ascii (first ++ number) := by
        intro hascii
        rw [← List.append_assoc] at hforeign
        refine hforeign (ascii_append_iff.2 ⟨hascii, fun c hc => (unitText_plain capital c hc).1⟩)
      have hbare : ∀ text, Ascii text → first ++ number ≠ text := by
        rintro text hascii rfl
        exact hcoefficient hascii
      rw [← List.append_assoc, parseImaginary?_append,
        if_neg (not_or.2 ⟨hbare _ (by decide), hbare _ (by decide)⟩), if_neg (hbare _ (by decide)),
        parseBits?_eq_none hcoefficient]

end RecordCheck.Complex
