import RecordCheck.Complex.Reader
import RecordCheck.Proofs.Complex.Grammar
set_option autoImplicit false

/-!
# Complex: the reader follows the grammar

Each step of the reader is sound, what it takes off the text is the text of a derivation, and
complete, it takes off all of a derivation's text when the text behind that cannot extend it.
Behind a number stands nothing, a sign or the imaginary unit: `Ends`.
-/

namespace RecordCheck.Complex

open Binary64

/-! ## Digits -/

theorem digitValue?_digitChar (d : Fin 10) : digitValue? (digitChar d) = some d.val := by
  revert d; decide

theorem digitValue?_eq_some {c : Char} {n : Nat} (h : digitValue? c = some n) :
    ∃ d : Fin 10, c = digitChar d ∧ d.val = n := by
  unfold digitValue? at h
  split_ifs at h with hrange
  obtain ⟨hlow, hhigh⟩ := hrange
  have hlow' : 48 ≤ c.toNat := hlow
  have hhigh' : c.toNat ≤ 57 := hhigh
  have hn : c.toNat - 48 = n := Option.some.inj h
  have hc : c = Char.ofNat (n + 48) := by
    rw [← hn, Nat.sub_add_cancel hlow', Char.ofNat_toNat]
  have hlt : n < 10 := by omega
  refine ⟨⟨n, hlt⟩, hc.trans ?_, rfl⟩
  clear hc h hn
  interval_cases n <;> rfl

/-- The text does not go on with a digit or an underscore. -/
def NoDigit (text : List Char) : Prop := ∀ c ∈ text.head?, digitValue? c = none ∧ c ≠ '_'

theorem continueDigits_of_noDigit {text : List Char} (h : NoDigit text) :
    continueDigits text = ([], text) := by
  cases text with
  | nil => rw [continueDigits]
  | cons c rest =>
    obtain ⟨hdigit, hunderscore⟩ := h c rfl
    rw [continueDigits.eq_def]
    simp [hdigit, hunderscore]

theorem readDigits?_of_noDigit {text : List Char} (h : NoDigit text) : readDigits? text = none := by
  cases text with
  | nil => rfl
  | cons c rest => simp [readDigits?, (h c rfl).1]

theorem digitValue?_underscore : digitValue? '_' = none := by decide

theorem continueDigits_digit {c : Char} {d : Nat} (h : digitValue? c = some d) (rest : List Char) :
    continueDigits (c :: rest) = (d :: (continueDigits rest).1, (continueDigits rest).2) := by
  rw [continueDigits.eq_def]
  simp [h]

theorem continueDigits_underscore {c : Char} {d : Nat} (h : digitValue? c = some d)
    (rest : List Char) :
    continueDigits ('_' :: c :: rest) =
      (d :: (continueDigits rest).1, (continueDigits rest).2) := by
  rw [continueDigits.eq_def]
  simp [h, digitValue?_underscore]

theorem continueDigits_text (others : List (Bool × Fin 10)) {rest : List Char} (h : NoDigit rest) :
    continueDigits (Digits.othersText others ++ rest) = (others.map fun d => d.2.val, rest) := by
  induction others with
  | nil => exact continueDigits_of_noDigit h
  | cons d others ih =>
    obtain ⟨underscore, d⟩ := d
    cases underscore with
    | false =>
      rw [Digits.othersText, List.cons_append, continueDigits_digit (digitValue?_digitChar d), ih]
      rfl
    | true =>
      rw [Digits.othersText, List.cons_append, List.cons_append,
        continueDigits_underscore (digitValue?_digitChar d), ih]
      rfl

theorem readDigits?_text (ds : Digits) {rest : List Char} (h : NoDigit rest) :
    readDigits? (ds.text ++ rest) = some (ds.values, rest) := by
  simp [Digits.text, readDigits?, digitValue?_digitChar, continueDigits_text ds.others h,
    Digits.values]

theorem continueDigits_sound (text : List Char) :
    ∃ others rest, text = Digits.othersText others ++ rest ∧
      continueDigits text = (others.map fun d => d.2.val, rest) := by
  induction text using continueDigits.induct with
  | case1 => exact ⟨[], [], rfl, by rw [continueDigits]; rfl⟩
  | case2 c text n hdigit _ _ _ ih =>
    obtain ⟨d, rfl, rfl⟩ := digitValue?_eq_some hdigit
    obtain ⟨others, rest, htext, hread⟩ := ih
    refine ⟨(false, d) :: others, rest, by rw [Digits.othersText, List.cons_append, ← htext], ?_⟩
    rw [continueDigits_digit hdigit, hread]
    rfl
  | case3 =>
    exact ⟨[], ['_'], rfl, by rw [continueDigits.eq_def]; simp [digitValue?_underscore]⟩
  | case4 c text n hdigit _ _ _ _ ih =>
    obtain ⟨d, rfl, rfl⟩ := digitValue?_eq_some hdigit
    obtain ⟨others, rest, htext, hread⟩ := ih
    refine ⟨(true, d) :: others, rest, by
      rw [Digits.othersText, List.cons_append, List.cons_append, ← htext], ?_⟩
    rw [continueDigits_underscore hdigit, hread]
    rfl
  | case5 c text hdigit =>
    refine ⟨[], '_' :: c :: text, rfl, ?_⟩
    rw [continueDigits.eq_def]
    simp [digitValue?_underscore, hdigit]
  | case6 c text hdigit hunderscore =>
    refine ⟨[], c :: text, rfl, continueDigits_of_noDigit fun c' hc' => ?_⟩
    obtain rfl : c = c' := Option.some.inj hc'
    exact ⟨hdigit, hunderscore⟩

theorem readDigits?_sound {text rest : List Char} {values : List Nat}
    (h : readDigits? text = some (values, rest)) :
    ∃ ds : Digits, text = ds.text ++ rest ∧ ds.values = values := by
  cases text with
  | nil => exact nomatch h
  | cons c text =>
    rw [readDigits?] at h
    split at h
    · rename_i n hdigit
      obtain ⟨d, rfl, rfl⟩ := digitValue?_eq_some hdigit
      obtain ⟨others, rest', htext, hread⟩ := continueDigits_sound text
      rw [hread] at h
      obtain ⟨rfl, rfl⟩ := Prod.mk.inj (Option.some.inj h)
      exact ⟨⟨d, others⟩, by rw [htext]; rfl, rfl⟩
    · exact nomatch h

theorem ofDigits_eq_baseTen (ds : List Nat) : ofDigits ds = baseTen ds := by
  rw [baseTen, ofDigits, Nat.ofDigits_eq_foldr, List.foldr_reverse]
  congr 1
  funext n d
  simp [Nat.add_comm]

/-! ## What may follow a number -/

/-- The text is over, or goes on with a sign or the imaginary unit. -/
def Ends (text : List Char) : Prop :=
  ∀ c ∈ text.head?, c = '+' ∨ c = '-' ∨ c = 'j' ∨ c = 'J'

theorem ends_nil : Ends [] := by simp [Ends]

theorem ends_unitText (capital : Bool) : Ends (unitText capital) := by
  cases capital <;> simp [Ends, unitText]

theorem ends_sign (sign : Sign) (rest : List Char) : Ends (sign.text ++ rest) := by
  cases sign <;> simp [Ends, Sign.text]

theorem Ends.noDigit {text : List Char} (h : Ends text) : NoDigit text := by
  intro c hc
  rcases h c hc with rfl | rfl | rfl | rfl <;> decide

/-! ## Signs and powers of ten -/

/-- The text does not begin with a sign. -/
def NoSign (text : List Char) : Prop := ∀ c ∈ text.head?, c ≠ '+' ∧ c ≠ '-'

theorem readSign_of_noSign {text : List Char} (h : NoSign text) : readSign text = (none, text) := by
  cases text with
  | nil => rfl
  | cons c rest =>
    obtain ⟨hplus, hminus⟩ := h c rfl
    unfold readSign
    split
    · rename_i heq; exact absurd (List.cons.inj heq).1 hplus
    · rename_i heq; exact absurd (List.cons.inj heq).1 hminus
    · rfl

theorem readSign_text (sign : Option Sign) {rest : List Char} (h : NoSign rest) :
    readSign (optionText Sign.text sign ++ rest) = (sign.map (· == .minus), rest) := by
  cases sign with
  | none => exact readSign_of_noSign h
  | some sign => cases sign <;> rfl

theorem readSign_sound {text rest : List Char} {negative : Option Bool}
    (h : readSign text = (negative, rest)) :
    ∃ sign : Option Sign, text = optionText Sign.text sign ++ rest ∧
      sign.map (· == .minus) = negative := by
  unfold readSign at h
  split at h
  · obtain ⟨rfl, rfl⟩ := Prod.mk.inj h
    exact ⟨some .plus, rfl, rfl⟩
  · obtain ⟨rfl, rfl⟩ := Prod.mk.inj h
    exact ⟨some .minus, rfl, rfl⟩
  · obtain ⟨rfl, rfl⟩ := Prod.mk.inj h
    exact ⟨none, rfl, rfl⟩

theorem isMinus_eq (sign : Option Sign) :
    isMinus sign = (sign.map (· == .minus) == some true) := by
  rcases sign with _ | _ | _ <;> rfl

theorem Digits.text_noSign (ds : Digits) (rest : List Char) : NoSign (ds.text ++ rest) := by
  intro c hc
  obtain rfl : digitChar ds.first = c := Option.some.inj hc
  exact (by decide : ∀ d : Fin 10, digitChar d ≠ '+' ∧ digitChar d ≠ '-') ds.first

theorem readPower_of_ends {text : List Char} (h : Ends text) : readPower text = (0, text) := by
  cases text with
  | nil => rfl
  | cons c rest =>
    have hletter : ¬(c = 'e' ∨ c = 'E') := by
      rcases h c rfl with rfl | rfl | rfl | rfl <;> decide
    rw [readPower, if_neg hletter]

theorem readPower_letter {c : Char} (hletter : c = 'e' ∨ c = 'E') {negative : Option Bool}
    {values : List Nat} {text afterSign rest : List Char}
    (hsign : readSign text = (negative, afterSign))
    (hdigits : readDigits? afterSign = some (values, rest)) :
    readPower (c :: text) =
      (if negative = some true then -(baseTen values : Int) else baseTen values, rest) := by
  rw [readPower, if_pos hletter, hsign]
  simp only [hdigits, ofDigits_eq_baseTen]

theorem powerValue_some (p : Power) :
    powerValue (some p) = if p.sign.map (· == .minus) = some true
      then -(baseTen p.digits.values : Int) else baseTen p.digits.values := by
  rw [powerValue, isMinus_eq]
  simp only [beq_iff_eq]

theorem Power.letter (capital : Bool) :
    (if capital then 'E' else 'e') = 'e' ∨ (if capital then 'E' else 'e') = 'E' := by
  cases capital <;> decide

theorem readPower_text (power : Option Power) {rest : List Char} (h : Ends rest) :
    readPower (optionText Power.text power ++ rest) = (powerValue power, rest) := by
  cases power with
  | none => exact readPower_of_ends h
  | some p =>
    have hsign := readSign_text p.sign (p.digits.text_noSign rest)
    have hdigits := readDigits?_text p.digits h.noDigit
    rw [optionText, Power.text, List.cons_append, List.append_assoc,
      readPower_letter (Power.letter p.capital) hsign hdigits, powerValue_some]

theorem readPower_sound (text : List Char) :
    ∃ power rest, text = optionText Power.text power ++ rest ∧
      readPower text = (powerValue power, rest) := by
  by_cases hsome : ∃ c afterLetter negative afterSign values rest, text = c :: afterLetter ∧
      (c = 'e' ∨ c = 'E') ∧ readSign afterLetter = (negative, afterSign) ∧
      readDigits? afterSign = some (values, rest)
  · obtain ⟨c, afterLetter, negative, afterSign, values, rest, rfl, hletter, hsign, hdigits⟩ :=
      hsome
    obtain ⟨sign, rfl, rfl⟩ := readSign_sound hsign
    obtain ⟨ds, rfl, rfl⟩ := readDigits?_sound hdigits
    refine ⟨some ⟨c == 'E', sign, ds⟩, rest, ?_, ?_⟩
    · rw [optionText, Power.text, List.cons_append, List.append_assoc]
      rcases hletter with rfl | rfl <;> rfl
    · rw [readPower_letter hletter hsign hdigits, powerValue_some]
  · refine ⟨none, text, rfl, ?_⟩
    cases text with
    | nil => rfl
    | cons c afterLetter =>
      rw [readPower]
      split_ifs with hletter
      · cases hdigits : readDigits? (readSign afterLetter).2 with
        | none => simp only [hdigits]; rfl
        | some p =>
          exact absurd ⟨c, afterLetter, _, _, p.1, p.2, rfl, hletter, rfl, hdigits⟩ hsome
      · rfl

/-! ## Numbers -/

theorem afterWord?_text {word letters : List Char} (h : letters.map Char.toLower = word)
    (rest : List Char) : afterWord? word (letters ++ rest) = some rest := by
  induction letters generalizing word with
  | nil => rw [← h]; rfl
  | cons c letters ih =>
    rw [← h, List.map_cons, List.cons_append, afterWord?, if_pos rfl, ih rfl]

theorem afterWord?_sound {word text rest : List Char} (h : afterWord? word text = some rest) :
    ∃ letters, text = letters ++ rest ∧ letters.map Char.toLower = word := by
  induction word generalizing text with
  | nil => exact ⟨[], Option.some.inj h, rfl⟩
  | cons w word ih =>
    cases text with
    | nil => exact nomatch h
    | cons c text =>
      rw [afterWord?] at h
      split_ifs at h with hletter
      obtain ⟨letters, rfl, rfl⟩ := ih h
      exact ⟨c :: letters, rfl, by rw [List.map_cons, hletter]⟩

theorem afterWord?_append (word others text : List Char) :
    afterWord? (word ++ others) text = (afterWord? word text).bind (afterWord? others) := by
  induction word generalizing text with
  | nil => rfl
  | cons w word ih =>
    cases text with
    | nil => rfl
    | cons c text =>
      rw [List.cons_append, afterWord?, afterWord?]
      split_ifs
      · exact ih text
      · rfl

/-- A name begins with a letter that is neither a digit nor a point nor a sign. -/
theorem Name.first {name : Name} {letters : List Char}
    (spells : letters.map Char.toLower = name.letters) :
    ∃ c others, letters = c :: others ∧ digitValue? c = none ∧ c ≠ '.' ∧ c ≠ '+' ∧ c ≠ '-' := by
  cases letters with
  | nil => cases name <;> exact nomatch spells
  | cons c others =>
    have hlower : c.toLower = 'n' ∨ c.toLower = 'i' := by
      cases name
      · exact .inl (List.cons.inj spells).1
      · exact .inr (List.cons.inj spells).1
      · exact .inr (List.cons.inj spells).1
    refine ⟨c, others, rfl, ?_, ?_, ?_, ?_⟩
    · cases hdigit : digitValue? c with
      | none => rfl
      | some n =>
        obtain ⟨d, rfl, -⟩ := digitValue?_eq_some hdigit
        exact absurd hlower ((by decide : ∀ d : Fin 10,
          ¬((digitChar d).toLower = 'n' ∨ (digitChar d).toLower = 'i')) d)
    all_goals
      rintro rfl
      revert hlower
      decide

/-- The magnitude that the reader makes of a number. -/
def Numeral.toMagnitude : Numeral → Magnitude
  | .whole digits power => decimalOf digits.values [] (powerValue power)
  | .pointed digits none power => decimalOf digits.values [] (powerValue power)
  | .pointed digits (some behind) power =>
    decimalOf digits.values behind.values (powerValue power)
  | .fraction digits power => decimalOf [] digits.values (powerValue power)
  | .named .nan _ _ => .nan
  | .named .inf _ _ => .infinite
  | .named .infinity _ _ => .infinite

/-- What the reader of numbers does if the text begins with neither digits nor a point. -/
def readName? (text : List Char) : Option (Magnitude × List Char) :=
  match afterWord? Name.nan.letters text with
  | some left => some (.nan, left)
  | none =>
    match afterWord? Name.infinity.letters text with
    | some left => some (.infinite, left)
    | none => (afterWord? Name.inf.letters text).map fun left => (.infinite, left)

theorem readNumber?_of_name {c : Char} {text : List Char} (hdigit : digitValue? c = none)
    (hpoint : c ≠ '.') : readNumber? (c :: text) = readName? (c :: text) := by
  have hnone : readDigits? (c :: text) = none := by simp [readDigits?, hdigit]
  unfold readNumber?
  rw [hnone]
  simp only
  split
  · rename_i heq; exact absurd (List.cons.inj heq).1 hpoint
  · rfl

theorem readName?_text {name : Name} {letters rest : List Char}
    (spells : letters.map Char.toLower = name.letters) (h : Ends rest) :
    readName? (letters ++ rest) = some ((Numeral.named name letters spells).toMagnitude, rest) := by
  have hnan : ∀ {others : List Char}, letters.map Char.toLower = 'i' :: others →
      afterWord? Name.nan.letters (letters ++ rest) = none := by
    intro others hi
    cases letters with
    | nil => exact nomatch hi
    | cons c letters =>
      rw [List.cons_append, Name.letters, afterWord?, (List.cons.inj hi).1]
      rfl
  cases name with
  | nan => rw [readName?, afterWord?_text spells]; rfl
  | infinity => rw [readName?, hnan spells, afterWord?_text spells]; rfl
  | inf =>
    have hlong : afterWord? Name.infinity.letters (letters ++ rest) = none := by
      rw [show Name.infinity.letters = Name.inf.letters ++ ['i', 'n', 'i', 't', 'y'] from rfl,
        afterWord?_append, afterWord?_text spells, Option.bind_some]
      cases rest with
      | nil => rfl
      | cons c rest => rcases h c rfl with rfl | rfl | rfl | rfl <;> rfl
    rw [readName?, hnan spells, hlong, afterWord?_text spells]
    rfl

theorem readName?_sound {text rest : List Char} {m : Magnitude}
    (h : readName? text = some (m, rest)) :
    ∃ n : Numeral, text = n.text ++ rest ∧ n.toMagnitude = m := by
  unfold readName? at h
  split at h
  · rename_i left hword
    obtain ⟨rfl, rfl⟩ := Prod.mk.inj (Option.some.inj h)
    obtain ⟨letters, rfl, spells⟩ := afterWord?_sound hword
    exact ⟨.named .nan letters spells, rfl, rfl⟩
  · split at h
    · rename_i left hword
      obtain ⟨rfl, rfl⟩ := Prod.mk.inj (Option.some.inj h)
      obtain ⟨letters, rfl, spells⟩ := afterWord?_sound hword
      exact ⟨.named .infinity letters spells, rfl, rfl⟩
    · obtain ⟨left, hword, hpair⟩ := Option.map_eq_some_iff.1 h
      obtain ⟨rfl, rfl⟩ := Prod.mk.inj hpair
      obtain ⟨letters, rfl, spells⟩ := afterWord?_sound hword
      exact ⟨.named .inf letters spells, rfl, rfl⟩

theorem readNumber?_whole {text rest : List Char} {values : List Nat}
    (hdigits : readDigits? text = some (values, rest)) (hpoint : ∀ c ∈ rest.head?, c ≠ '.') :
    readNumber? text = some (decimalOf values [] (readPower rest).1, (readPower rest).2) := by
  unfold readNumber?
  rw [hdigits]
  split
  · rename_i heq
    rw [(Prod.mk.inj (Option.some.inj heq)).2] at hpoint
    exact absurd rfl (hpoint '.' rfl)
  · rename_i heq
    obtain ⟨rfl, rfl⟩ := Prod.mk.inj (Option.some.inj heq)
    rfl
  · rename_i heq; exact nomatch heq

theorem readNumber?_pointed {text rest left : List Char} {values behind : List Nat}
    (hdigits : readDigits? text = some (values, '.' :: rest))
    (hbehind : (readDigits? rest).getD ([], rest) = (behind, left)) :
    readNumber? text = some (decimalOf values behind (readPower left).1, (readPower left).2) := by
  unfold readNumber?
  rw [hdigits]
  simp only [hbehind]

theorem readNumber?_fraction (text : List Char) :
    readNumber? ('.' :: text) = (readDigits? text).map fun p =>
      (decimalOf [] p.1 (readPower p.2).1, (readPower p.2).2) := by
  have hnone : readDigits? ('.' :: text) = none := rfl
  unfold readNumber?
  rw [hnone]
  simp only
  cases readDigits? text <;> rfl

theorem Power.head_cases {power : Option Power} {rest : List Char} (h : Ends rest) :
    ∀ c ∈ (optionText Power.text power ++ rest).head?,
      digitValue? c = none ∧ c ≠ '_' ∧ c ≠ '.' := by
  intro c hc
  cases power with
  | none => rcases h c hc with rfl | rfl | rfl | rfl <;> decide
  | some p =>
    obtain rfl : (if p.capital then 'E' else 'e') = c := Option.some.inj hc
    cases p.capital <;> decide

theorem Power.noDigit {power : Option Power} {rest : List Char} (h : Ends rest) :
    NoDigit (optionText Power.text power ++ rest) := fun c hc =>
  ⟨(Power.head_cases h c hc).1, (Power.head_cases h c hc).2.1⟩

theorem noDigit_point (rest : List Char) : NoDigit ('.' :: rest) := by
  intro c hc
  obtain rfl : '.' = c := Option.some.inj hc
  decide

theorem readNumber?_text (n : Numeral) {rest : List Char} (h : Ends rest) :
    readNumber? (n.text ++ rest) = some (n.toMagnitude, rest) := by
  cases n with
  | whole digits power =>
    have hdigits := readDigits?_text digits (@Power.noDigit power rest h)
    rw [Numeral.text, List.append_assoc,
      readNumber?_whole hdigits fun c hc => (Power.head_cases h c hc).2.2, readPower_text power h]
    rfl
  | pointed digits behind power =>
    have hdigits := readDigits?_text digits
      (noDigit_point (optionText Digits.text behind ++ (optionText Power.text power ++ rest)))
    have hbehind : (readDigits? (optionText Digits.text behind ++
        (optionText Power.text power ++ rest))).getD
          ([], optionText Digits.text behind ++ (optionText Power.text power ++ rest)) =
        ((behind.map Digits.values).getD [], optionText Power.text power ++ rest) := by
      cases behind with
      | none => rw [optionText, List.nil_append, readDigits?_of_noDigit (Power.noDigit h)]; rfl
      | some ds => rw [optionText, readDigits?_text ds (Power.noDigit h)]; rfl
    rw [Numeral.text, List.append_assoc, List.cons_append, List.append_assoc,
      readNumber?_pointed hdigits hbehind, readPower_text power h]
    cases behind <;> rfl
  | fraction digits power =>
    rw [Numeral.text, List.cons_append, List.append_assoc, readNumber?_fraction,
      readDigits?_text digits (Power.noDigit h), Option.map_some, readPower_text power h]
    rfl
  | named name letters spells =>
    obtain ⟨c, others, rfl, hdigit, hpoint, -, -⟩ := Name.first spells
    rw [Numeral.text, ← readName?_text spells h, List.cons_append,
      readNumber?_of_name hdigit hpoint]

theorem readNumber?_sound {text rest : List Char} {m : Magnitude}
    (h : readNumber? text = some (m, rest)) :
    ∃ n : Numeral, text = n.text ++ rest ∧ n.toMagnitude = m := by
  cases hdigits : readDigits? text with
  | some p =>
    obtain ⟨values, afterDigits⟩ := p
    obtain ⟨ds, htext, rfl⟩ := readDigits?_sound hdigits
    by_cases hpoint : ∃ afterPoint, afterDigits = '.' :: afterPoint
    · obtain ⟨afterPoint, rfl⟩ := hpoint
      obtain ⟨behind, left, hafter, hbehind⟩ : ∃ (behind : Option Digits) (left : List Char),
          afterPoint = optionText Digits.text behind ++ left ∧
            (readDigits? afterPoint).getD ([], afterPoint) =
              ((behind.map Digits.values).getD [], left) := by
        cases hmore : readDigits? afterPoint with
        | none => exact ⟨none, afterPoint, rfl, rfl⟩
        | some p =>
          obtain ⟨ds', hafter, hvalues⟩ := readDigits?_sound hmore
          exact ⟨some ds', p.2, hafter, by rw [Option.map_some, hvalues]; rfl⟩
      obtain ⟨power, rest', hleft, hread⟩ := readPower_sound left
      rw [readNumber?_pointed hdigits hbehind, hread] at h
      obtain ⟨rfl, rfl⟩ := Prod.mk.inj (Option.some.inj h)
      refine ⟨.pointed ds behind power, ?_, by cases behind <;> rfl⟩
      rw [htext, hafter, hleft, Numeral.text, List.append_assoc, List.cons_append,
        List.append_assoc]
    · obtain ⟨power, rest', hleft, hread⟩ := readPower_sound afterDigits
      have hhead : ∀ c ∈ afterDigits.head?, c ≠ '.' := by
        rintro c hc rfl
        exact hpoint ⟨_, List.eq_cons_of_mem_head? hc⟩
      rw [readNumber?_whole hdigits hhead, hread] at h
      obtain ⟨rfl, rfl⟩ := Prod.mk.inj (Option.some.inj h)
      exact ⟨.whole ds power, by rw [htext, hleft, Numeral.text, List.append_assoc], rfl⟩
  | none =>
    cases text with
    | nil => exact nomatch h
    | cons c text =>
      by_cases hpoint : c = '.'
      · subst hpoint
        rw [readNumber?_fraction] at h
        obtain ⟨⟨values, afterDigits⟩, hmore, hpair⟩ := Option.map_eq_some_iff.1 h
        obtain ⟨ds, rfl, rfl⟩ := readDigits?_sound hmore
        obtain ⟨power, rest', rfl, hread⟩ := readPower_sound afterDigits
        simp only [hread] at hpair
        obtain ⟨rfl, rfl⟩ := Prod.mk.inj hpair
        exact ⟨.fraction ds power, by rw [Numeral.text, List.cons_append, List.append_assoc], rfl⟩
      · have hdigit : digitValue? c = none := by
          cases hc : digitValue? c with
          | none => rfl
          | some d => simp [readDigits?, hc] at hdigits
        rw [readNumber?_of_name hdigit hpoint] at h
        exact readName?_sound h

/-! ## Literals -/

theorem Numeral.noSign (n : Numeral) (rest : List Char) : NoSign (n.text ++ rest) := by
  cases n with
  | whole digits power =>
    rw [text, List.append_assoc]
    exact digits.text_noSign _
  | pointed digits behind power =>
    rw [text, List.append_assoc]
    exact digits.text_noSign _
  | fraction digits power =>
    intro c hc
    obtain rfl : '.' = c := Option.some.inj hc
    decide
  | named name letters spells =>
    obtain ⟨c, others, rfl, -, -, hplus, hminus⟩ := Name.first spells
    intro c' hc'
    obtain rfl : c = c' := Option.some.inj hc'
    exact ⟨hplus, hminus⟩

theorem noSign_unitText (capital : Bool) : NoSign (unitText capital) := by
  cases capital <;> simp [NoSign, unitText]

theorem isUnit_unitText (capital : Bool) : isUnit (unitText capital) = true := by
  cases capital <;> rfl

theorem isUnit_eq_true {text : List Char} (h : isUnit text = true) :
    ∃ capital, text = unitText capital := by
  rw [isUnit, Bool.or_eq_true, beq_iff_eq, beq_iff_eq] at h
  rcases h with rfl | rfl
  · exact ⟨false, rfl⟩
  · exact ⟨true, rfl⟩

theorem readNumber?_unitText (capital : Bool) : readNumber? (unitText capital) = none := by
  cases capital <;> rfl

/-- The imaginary part that the reader makes of a sign and a number, or of a sign alone. -/
def imaginaryValue (negative : Bool) : Option Numeral → UInt64
  | some n => n.toMagnitude.toBits negative
  | none => (Magnitude.decimal ⟨1, 0⟩).toBits negative

theorem readImaginary?_text (negative : Bool) (im : Option Numeral) (capital : Bool) :
    readImaginary? negative (optionText Numeral.text im ++ unitText capital) =
      some (imaginaryValue negative im) := by
  cases im with
  | none =>
    rw [optionText, List.nil_append, readImaginary?, readNumber?_unitText]
    simp only [isUnit_unitText, if_true]
    rfl
  | some n =>
    rw [optionText, readImaginary?, readNumber?_text n (ends_unitText capital)]
    simp only [isUnit_unitText, if_true]
    rfl

theorem readImaginary?_sound {negative : Bool} {text : List Char} {x : UInt64}
    (h : readImaginary? negative text = some x) :
    ∃ im capital, text = optionText Numeral.text im ++ unitText capital ∧
      imaginaryValue negative im = x := by
  rw [readImaginary?] at h
  split at h
  · rename_i number left hnumber
    split_ifs at h with hunit
    obtain ⟨n, rfl, rfl⟩ := readNumber?_sound hnumber
    obtain ⟨capital, rfl⟩ := isUnit_eq_true hunit
    exact ⟨some n, capital, rfl, Option.some.inj h⟩
  · split_ifs at h with hunit
    obtain ⟨capital, rfl⟩ := isUnit_eq_true hunit
    exact ⟨none, capital, rfl, Option.some.inj h⟩

/-- The complex number that the reader makes of a literal. -/
def Literal.value : Literal → Complex
  | .real sign re => ⟨re.toMagnitude.toBits (isMinus sign), 0⟩
  | .both sign re imSign im _ =>
    ⟨re.toMagnitude.toBits (isMinus sign), imaginaryValue (isMinus (some imSign)) im⟩
  | .imaginary sign im _ => ⟨0, imaginaryValue (isMinus sign) im⟩

theorem ofBody?_imaginary {sign : Option Sign} {text : List Char}
    (hsign : NoSign text) (hnumber : readNumber? text = none) :
    ofBody? (optionText Sign.text sign ++ text) =
      (readImaginary? (isMinus sign) text).map fun im => ⟨0, im⟩ := by
  rw [ofBody?, readSign_text sign hsign, isMinus_eq]
  simp only [hnumber]

theorem ofBody?_real {sign : Option Sign} {re : Numeral} :
    ofBody? (optionText Sign.text sign ++ re.text) =
      some ⟨re.toMagnitude.toBits (isMinus sign), 0⟩ := by
  have hsign := readSign_text sign (re.noSign [])
  have hnumber := readNumber?_text re ends_nil
  rw [List.append_nil] at hsign hnumber
  rw [ofBody?, hsign, isMinus_eq]
  simp only [hnumber, List.isEmpty_nil, if_true]

theorem ofBody?_unit {sign : Option Sign} {im : Numeral} {capital : Bool} :
    ofBody? (optionText Sign.text sign ++ (im.text ++ unitText capital)) =
      some ⟨0, im.toMagnitude.toBits (isMinus sign)⟩ := by
  have hnonempty : (unitText capital).isEmpty = false := rfl
  rw [ofBody?, readSign_text sign (im.noSign _), isMinus_eq]
  simp only [readNumber?_text im (ends_unitText capital), hnonempty, isUnit_unitText, if_true,
    Bool.false_eq_true, if_false]

theorem ofBody?_both {sign : Option Sign} {re : Numeral} {imSign : Sign} {rest : List Char} :
    ofBody? (optionText Sign.text sign ++ (re.text ++ (imSign.text ++ rest))) =
      (readImaginary? (isMinus (some imSign)) rest).map fun im =>
        ⟨re.toMagnitude.toBits (isMinus sign), im⟩ := by
  have hnonempty : (imSign.text ++ rest).isEmpty = false := by cases imSign <;> rfl
  have hunit : isUnit (imSign.text ++ rest) = false := by cases imSign <;> rfl
  have hsecond : readSign (imSign.text ++ rest) = (some (isMinus (some imSign)), rest) := by
    cases imSign <;> rfl
  rw [ofBody?, readSign_text sign (re.noSign _), isMinus_eq sign]
  simp only [readNumber?_text re (ends_sign imSign rest), hnonempty, hunit, hsecond,
    Bool.false_eq_true, if_false]

theorem ofBody?_text (t : Literal) : ofBody? t.text = some t.value := by
  cases t with
  | real sign re => exact ofBody?_real
  | both sign re imSign im capital =>
    rw [Literal.text, ofBody?_both, readImaginary?_text]
    rfl
  | imaginary sign im capital =>
    cases im with
    | some n => exact ofBody?_unit
    | none =>
      have himaginary := readImaginary?_text (isMinus sign) none capital
      rw [optionText, List.nil_append] at himaginary
      rw [Literal.text, optionText, List.nil_append,
        ofBody?_imaginary (noSign_unitText capital) (readNumber?_unitText capital), himaginary]
      rfl

theorem ofBody?_sound {text : List Char} {c : Complex} (h : ofBody? text = some c) :
    ∃ t : Literal, t.text = text ∧ t.value = c := by
  rw [ofBody?] at h
  cases hsign : readSign text with
  | mk negative afterSign =>
    obtain ⟨sign, rfl, rfl⟩ := readSign_sound hsign
    rw [hsign] at h
    simp only [← isMinus_eq] at h
    split at h
    · obtain ⟨x, himaginary, rfl⟩ := Option.map_eq_some_iff.1 h
      obtain ⟨im, capital, rfl, rfl⟩ := readImaginary?_sound himaginary
      exact ⟨.imaginary sign im capital, rfl, rfl⟩
    · rename_i number left hnumber
      obtain ⟨re, rfl, rfl⟩ := readNumber?_sound hnumber
      split_ifs at h with hempty hunit
      · obtain rfl : left = [] := List.isEmpty_iff.1 hempty
        exact ⟨.real sign re, by rw [Literal.text, List.append_nil], Option.some.inj h⟩
      · obtain ⟨capital, rfl⟩ := isUnit_eq_true hunit
        exact ⟨.imaginary sign (some re) capital, rfl, Option.some.inj h⟩
      · split at h
        · rename_i negative afterSign hsecond
          obtain ⟨x, himaginary, rfl⟩ := Option.map_eq_some_iff.1 h
          obtain ⟨imSign, rfl, himSign⟩ := readSign_sound hsecond
          obtain ⟨im, capital, rfl, rfl⟩ := readImaginary?_sound himaginary
          cases imSign with
          | none => exact nomatch himSign
          | some imSign =>
            obtain rfl : (imSign == .minus) = negative := Option.some.inj himSign
            refine ⟨.both sign re imSign im capital, rfl, ?_⟩
            cases imSign <;> rfl
        · exact nomatch h

end RecordCheck.Complex
