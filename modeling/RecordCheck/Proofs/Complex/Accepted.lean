import RecordCheck.Proofs.Binary64.Words
import RecordCheck.Proofs.Complex.Double
import RecordCheck.Proofs.Text.Trim
set_option autoImplicit false

/-!
# Complex: the texts that are accepted

The expression may divide a bare literal in other ways than the grammar does: it counts more digits,
and it leaves open where one run of digits ends and the next begins.  Whatever its first match is,
the groups lead to the number of the only derivation, or to none if there is none (`ofBare?_eq`).
Main statement: `parse_accepts_exactly_literals`.
-/

namespace RecordCheck.Complex

open Binary64

/-! ## The values -/

theorem baseTen_append (whole fraction : List Nat) :
    baseTen (whole ++ fraction) = baseTen whole * 10 ^ fraction.length + baseTen fraction := by
  rw [baseTen, baseTen, baseTen, List.reverse_append, Nat.ofDigits_append, List.length_reverse]
  ring

/-- The point only moves the power of ten. -/
theorem positionalValue_eq (whole fraction : List Nat) (power : Option Power) :
    positionalValue whole fraction power =
      (⟨baseTen (whole ++ fraction), powerValue power - fraction.length⟩ : Decimal).value := by
  have hten : (10 : ℚ) ^ fraction.length ≠ 0 := by positivity
  rw [Decimal.value, positionalValue, baseTen_append, zpow_sub₀ (by norm_num), zpow_natCast]
  push_cast
  field_simp

theorem decimalOf_names (negative : Bool) (whole fraction : List Nat) (power : Option Power)
    (bits : UInt64) :
    IsNearestBits negative (positionalValue whole fraction power) bits ↔
      bits = (decimalOf whole fraction (powerValue power)).toBits negative := by
  have hnearest := IsNearestDouble.toBits (Decimal.toFloat_isNearestDouble negative
    ⟨ofDigits (whole ++ fraction), powerValue power - fraction.length⟩)
  rw [ofDigits_eq_baseTen, ← positionalValue_eq, ← ofDigits_eq_baseTen] at hnearest
  exact hnearest.iff_eq

theorem Numeral.names_iff (negative : Bool) (n : Numeral) (bits : UInt64) :
    n.Names negative bits ↔ bits = n.toMagnitude.toBits negative := by
  cases n with
  | whole digits power => exact decimalOf_names negative _ _ power bits
  | pointed digits behind power => cases behind <;> exact decimalOf_names negative _ _ power bits
  | fraction digits power => exact decimalOf_names negative _ _ power bits
  | named name letters spells => cases name <;> exact Iff.rfl

theorem namesImaginary_iff (negative : Bool) (im : Option Numeral) (bits : UInt64) :
    NamesImaginary negative im bits ↔ bits = imaginaryValue negative im := by
  cases im with
  | some n => exact n.names_iff negative bits
  | none =>
    have hnearest := IsNearestDouble.toBits (Decimal.toFloat_isNearestDouble negative ⟨1, 0⟩)
    rw [show (⟨1, 0⟩ : Decimal).value = 1 by norm_num [Decimal.value]] at hnearest
    exact hnearest.iff_eq

theorem signedBits_zero : signedBits false 0 = 0 := rfl

/-- A literal names exactly one complex number. -/
theorem Literal.names_iff (t : Literal) (c : Complex) : t.Names c ↔ c = t.value := by
  rcases c with ⟨re, im⟩
  cases t with
  | real sign n => simp only [Names, value, Numeral.names_iff, Complex.mk.injEq, signedBits_zero]
  | both sign n imSign m capital =>
    simp only [Names, value, Numeral.names_iff, namesImaginary_iff, Complex.mk.injEq]
  | imaginary sign m capital =>
    simp only [Names, value, namesImaginary_iff, Complex.mk.injEq, signedBits_zero]

/-! ## The expression and the reader -/

theorem exists_matched (t : Literal) : ∃ groups, Matched t.text groups := by
  cases t with
  | real sign re => exact ⟨_, .real (describes_real.complete (sign, re))⟩
  | both sign re imSign im capital =>
    have hre := describes_real.complete (sign, re)
    have him := (describes_sign.seq describes_imaginary).complete (imSign, im, capital)
    rw [Literal.text, ← List.append_assoc]
    exact ⟨_, .both hre him⟩
  | imaginary sign im capital =>
    exact ⟨_, .imaginary
      ((describes_sign.optional.seq describes_imaginary).complete (sign, im, capital))⟩

theorem ofGroups?_real (re : List Char) :
    ofGroups? [("re", re)] = some ((parseBits? re).map fun re => ⟨re, 0⟩) := by
  have himonly : Table.find? "imonly" [("re", re)] = none := by simp [Table.find?]
  have him : Table.find? "im" [("re", re)] = none := by simp [Table.find?]
  have hre : Table.find? "re" [("re", re)] = some re := by simp [Table.find?]
  rw [ofGroups?, himonly, him, hre]
  cases hbits : parseBits? re <;> simp only [Option.bind_some, hbits] <;> rfl

theorem ofGroups?_both (re im : List Char) : ofGroups? [("im", im), ("re", re)] =
    (parseBits? re).elim (some none) fun re =>
      (parseImaginary? im).map fun im => im.map fun im => ⟨re, im⟩ := by
  have himonly : Table.find? "imonly" [("im", im), ("re", re)] = none := by simp [Table.find?]
  have him : Table.find? "im" [("im", im), ("re", re)] = some im := by simp [Table.find?]
  have hre : Table.find? "re" [("im", im), ("re", re)] = some re := by simp [Table.find?]
  rw [ofGroups?, himonly, him, hre]
  cases hbits : parseBits? re <;> simp only [Option.bind_some, hbits] <;> rfl

theorem ofGroups?_imaginary (im : List Char) : ofGroups? [("imonly", im)] =
    (parseImaginary? im).map fun im => im.map fun im => ⟨0, im⟩ := by
  simp [ofGroups?, Table.find?]

/-- What is matched has a derivation, whose value is that of the groups, or a character beyond
ASCII, and then a part of it is not the text of a double. -/
theorem ofGroups?_of_matched {text : List Char} {groups : Text.Regex.Groups}
    (h : Matched text groups) :
    (∃ t : Literal, t.text = text ∧ ofGroups? groups = some (some t.value)) ∨
      ¬Ascii text ∧ ofGroups? groups = some none := by
  cases h with
  | real hre =>
    rw [ofGroups?_real]
    by_cases hascii : Ascii text
    · obtain ⟨⟨sign, re⟩, rfl⟩ := describes_real.sound hre hascii
      exact .inl ⟨.real sign re, rfl, by rw [parseBits?_text]; rfl⟩
    · exact .inr ⟨hascii, by rw [parseBits?_eq_none hascii]; rfl⟩
  | @both re im hre him =>
    rw [ofGroups?_both]
    by_cases hre' : Ascii re
    · obtain ⟨⟨sign, re⟩, rfl⟩ := describes_real.sound hre hre'
      rw [parseBits?_text]
      by_cases him' : Ascii im
      · obtain ⟨⟨imSign, im, capital⟩, rfl⟩ :=
          (describes_sign.seq describes_imaginary).sound him him'
        have hparse := parseImaginary?_text (some imSign) im capital
        refine .inl ⟨.both sign re imSign im capital, ?_, ?_⟩
        · simp only [Literal.text, List.append_assoc]
        · exact congrArg (Option.map _) hparse
      · exact .inr ⟨fun h => him' (ascii_append_iff.1 h).2,
          by rw [parseImaginary?_eq_none him him']; rfl⟩
    · exact .inr ⟨fun h => hre' (ascii_append_iff.1 h).1, by rw [parseBits?_eq_none hre']; rfl⟩
  | imaginary him =>
    rw [ofGroups?_imaginary]
    by_cases hascii : Ascii text
    · obtain ⟨⟨sign, im, capital⟩, rfl⟩ :=
        (describes_sign.optional.seq describes_imaginary).sound him hascii
      exact .inl ⟨.imaginary sign im capital, rfl, by rw [parseImaginary?_text]; rfl⟩
    · exact .inr ⟨hascii, by rw [parseImaginary?_eq_none him hascii]; rfl⟩

/-- On every bare literal the expression and its groups lead to what the reader in one pass answers;
no last byte is taken off that is not a character. -/
theorem ofBare?_eq (bare : List Char) : ofBare? bare = some (ofBody? bare) := by
  have hnone (h : ¬∃ t : Literal, t.text = bare) : ofBody? bare = none := by
    by_contra hsome
    obtain ⟨c, hc⟩ := Option.ne_none_iff_exists'.1 hsome
    obtain ⟨t, ht, -⟩ := ofBody?_sound hc
    exact h ⟨t, ht⟩
  rw [ofBare?]
  cases hcaptures : Pattern.literal.captures bare with
  | none =>
    rw [hnone]
    rintro ⟨t, rfl⟩
    obtain ⟨groups, hgroups⟩ := exists_matched t
    have hsome := captures_of_matched hgroups
    rw [hcaptures] at hsome
    exact nomatch hsome
  | some groups =>
    rcases ofGroups?_of_matched (matched_of_captures hcaptures) with
      ⟨t, rfl, hvalue⟩ | ⟨hforeign, hvalue⟩
    · rw [ofBody?_text]
      exact hvalue
    · rw [hnone]
      · exact hvalue
      -- What has a derivation is ASCII throughout.
      · rintro ⟨t, rfl⟩
        exact hforeign fun c hc => (t.text_plain c hc).1

-- The Arabic digit one is matched as a real part, which is then not the text of a double.
example : Pattern.literal.captures ['١'] = some [("re", ['١'])] ∧ ofBare? ['١'] = some none := by
  decide +kernel

theorem ofBody?_eq_some_iff {text : List Char} {c : Complex} :
    ofBody? text = some c ↔ ∃ t : Literal, t.text = text ∧ t.Names c := by
  simp only [Literal.names_iff]
  constructor
  · intro h
    obtain ⟨t, htext, hvalue⟩ := ofBody?_sound h
    exact ⟨t, htext, hvalue.symm⟩
  · rintro ⟨t, rfl, rfl⟩
    exact ofBody?_text t

/-! ## The bare literal of a text -/

/-- `bare` is the text without the blanks at its ends and, if one pair of parentheses stands around
all that is left, without that pair and the blanks inside it. -/
inductive Bare (text bare : List Char) : Prop where
  | enclosed (inside : List Char) (around : Text.Trims text ('(' :: (inside ++ [')'])))
      (within : Text.Trims inside bare)
  | plain (around : Text.Trims text bare) (unenclosed : ∀ inside, bare ≠ '(' :: (inside ++ [')']))

theorem enclosed?_eq_some_iff {text inside : List Char} :
    enclosed? text = some inside ↔ text = '(' :: (inside ++ [')']) := by
  constructor
  · intro h
    unfold enclosed? at h
    split at h
    · rename_i rest
      split at h
      · rename_i inner hreverse
        obtain rfl : inner.reverse = inside := Option.some.inj h
        rw [← List.reverse_reverse rest, hreverse, List.reverse_cons]
      · exact nomatch h
    · exact nomatch h
  · rintro rfl
    simp [enclosed?]

theorem bare_iff {text bare : List Char} : Bare text bare ↔ bare = body text := by
  constructor
  · rintro (⟨inside, around, within⟩ | ⟨around, unenclosed⟩)
    · rw [Text.trims_iff] at around within
      rw [body, ← around]
      simp only [enclosed?_eq_some_iff.2 rfl]
      exact within
    · rw [Text.trims_iff] at around
      rw [body, ← around]
      cases hinside : enclosed? bare with
      | none => rfl
      | some inside => exact absurd (enclosed?_eq_some_iff.1 hinside) (unenclosed inside)
  · rintro rfl
    rw [body]
    cases hinside : enclosed? (Text.trim text) with
    | none =>
      refine .plain (Text.trim_trims text) fun inside heq => ?_
      rw [enclosed?_eq_some_iff.2 heq] at hinside
      exact nomatch hinside
    | some inside =>
      refine .enclosed inside ?_ (Text.trim_trims inside)
      rw [← enclosed?_eq_some_iff.1 hinside]
      exact Text.trim_trims text

/-! ## What the reader of complex numbers answers -/

theorem parse?_of_empty {text : String} (h : body text.toList = []) :
    parse? text = some (.error .empty) := by
  simp only [parse?, h, List.isEmpty_nil, if_true]

theorem parse?_of_bare {text : String} (h : body text.toList ≠ []) : parse? text =
    some ((ofBody? (body text.toList)).elim (.error (.malformed text)) .ok) := by
  simp only [parse?, List.isEmpty_iff, h, if_false, ofBare?_eq, Option.map_some]
  cases ofBody? (body text.toList) <;> rfl

/-- Every text has an outcome. -/
theorem parse?_eq (text : String) : parse? text = some (parse text) := by
  rw [parse]
  by_cases h : body text.toList = []
  · rw [parse?_of_empty h]
    rfl
  · rw [parse?_of_bare h]
    rfl

theorem parse_of_some {text : String} {c : Complex} (h : body text.toList ≠ [])
    (hread : ofBody? (body text.toList) = some c) : parse text = .ok c := by
  rw [parse, parse?_of_bare h, hread]
  rfl

theorem parse_of_none {text : String} (h : body text.toList ≠ [])
    (hread : ofBody? (body text.toList) = none) : parse text = .error (.malformed text) := by
  rw [parse, parse?_of_bare h, hread]
  rfl

theorem parse_eq_empty_iff {text : String} :
    parse text = .error .empty ↔ body text.toList = [] := by
  by_cases h : body text.toList = []
  · rw [parse, parse?_of_empty h]
    exact iff_of_true rfl h
  · refine iff_of_false (fun hparse => ?_) h
    cases hread : ofBody? (body text.toList) with
    | none => exact nomatch (parse_of_none h hread).symm.trans hparse
    | some c => exact nomatch (parse_of_some h hread).symm.trans hparse

theorem parse_eq_ok_iff {text : String} {c : Complex} :
    parse text = .ok c ↔ ∃ t : Literal, t.text = body text.toList ∧ t.Names c := by
  rw [← ofBody?_eq_some_iff]
  by_cases hempty : body text.toList = []
  · rw [parse_eq_empty_iff.2 hempty, hempty]
    exact iff_of_false nofun (by rw [show ofBody? [] = none from rfl]; exact nofun)
  · cases hread : ofBody? (body text.toList) with
    | none =>
      rw [parse_of_none hempty hread]
      exact iff_of_false nofun nofun
    | some c' => rw [parse_of_some hempty hread, Except.ok.injEq, Option.some.injEq]

theorem parse_eq_malformed_iff {text named : String} :
    parse text = .error (.malformed named) ↔
      named = text ∧ body text.toList ≠ [] ∧ ¬∃ t : Literal, t.text = body text.toList := by
  by_cases hempty : body text.toList = []
  · rw [parse_eq_empty_iff.2 hempty]
    exact iff_of_false nofun fun h => h.2.1 hempty
  · cases hread : ofBody? (body text.toList) with
    | some c =>
      obtain ⟨t, htext, -⟩ := ofBody?_sound hread
      rw [parse_of_some hempty hread]
      exact iff_of_false nofun fun h => h.2.2 ⟨t, htext⟩
    | none =>
      have hnone : ¬∃ t : Literal, t.text = body text.toList := by
        rintro ⟨t, htext⟩
        rw [← htext, ofBody?_text] at hread
        exact nomatch hread
      rw [parse_of_none hempty hread]
      constructor
      · intro h
        obtain rfl : text = named := LiteralError.malformed.inj (Except.error.inj h)
        exact ⟨rfl, hempty, hnone⟩
      · rintro ⟨rfl, -, -⟩
        rfl

/-- A text is read as a complex number if its bare literal has a derivation, and only then; the
derivation is the only one and fixes the number.  A text without a bare literal and a text whose
bare literal has no derivation have an error each, and the second error carries the text in full.
There is an outcome for every text. -/
theorem parse_accepts_exactly_literals (text : String) :
    parse? text = some (parse text) ∧ ∃ bare, (∀ inner, Bare text.toList inner ↔ inner = bare) ∧
      (parse text = .error .empty ↔ bare = []) ∧
      (∀ c, parse text = .ok c ↔ ∃ t : Literal, t.text = bare ∧ t.Names c) ∧
      (∀ named, parse text = .error (.malformed named) ↔
        named = text ∧ bare ≠ [] ∧ ¬∃ t : Literal, t.text = bare) ∧
      (∀ t t' : Literal, t.text = bare → t'.text = bare → t = t') ∧
      ∀ t : Literal, ∃! c, t.Names c := by
  refine ⟨parse?_eq text, body text.toList, fun inner => bare_iff, parse_eq_empty_iff,
    fun c => parse_eq_ok_iff,
    fun named => parse_eq_malformed_iff, ?_, ?_⟩
  · intro t t' ht ht'
    exact Literal.text_injective (ht.trans ht'.symm)
  · intro t
    exact ⟨t.value, (t.names_iff _).2 rfl, fun c hc => (t.names_iff c).1 hc⟩

end RecordCheck.Complex
