import RecordCheck.Proofs.Complex.Reader
set_option autoImplicit false

/-!
# Complex: each text has one derivation

Where two derivations have the same text, the reader says that the texts behind their first parts
agree, so the parts have the same text; the rest is that texts of digits, signs, powers and names
tell their trees apart.
-/

namespace RecordCheck.Complex

theorem digitChar_injective {d d' : Fin 10} (h : digitChar d = digitChar d') : d = d' := by
  have := digitValue?_digitChar d
  rw [h, digitValue?_digitChar] at this
  exact Fin.ext (Option.some.inj this).symm

theorem digitChar_ne_underscore (d : Fin 10) : digitChar d ≠ '_' := by
  revert d; decide

theorem Digits.othersText_injective {others others' : List (Bool × Fin 10)}
    (h : Digits.othersText others = Digits.othersText others') : others = others' := by
  induction others generalizing others' with
  | nil =>
    rcases others' with _ | ⟨⟨_ | _, d⟩, others'⟩
    · rfl
    all_goals exact nomatch h
  | cons d others ih =>
    rcases d with ⟨_ | _, d⟩ <;> rcases others' with _ | ⟨⟨_ | _, d'⟩, others'⟩
    · exact nomatch h
    · obtain ⟨hd, hothers⟩ := List.cons.inj h
      rw [digitChar_injective hd, ih hothers]
    · exact absurd (List.cons.inj h).1 (digitChar_ne_underscore d)
    · exact nomatch h
    · exact absurd (List.cons.inj h).1.symm (digitChar_ne_underscore d')
    · obtain ⟨hd, hothers⟩ := List.cons.inj (List.cons.inj h).2
      rw [digitChar_injective hd, ih hothers]

theorem Digits.text_unique {ds ds' : Digits} {rest rest' : List Char} (hrest : NoDigit rest)
    (hrest' : NoDigit rest') (h : ds.text ++ rest = ds'.text ++ rest') :
    ds = ds' ∧ rest = rest' := by
  have hread := readDigits?_text ds hrest
  rw [h, readDigits?_text ds' hrest'] at hread
  obtain rfl : rest' = rest := (Prod.mk.inj (Option.some.inj hread)).2
  obtain ⟨hfirst, hothers⟩ := List.cons.inj (List.append_cancel_right h)
  have := digitChar_injective hfirst
  have := Digits.othersText_injective hothers
  cases ds
  cases ds'
  simp_all

theorem Sign.text_unique {sign sign' : Option Sign} {rest rest' : List Char} (hrest : NoSign rest)
    (hrest' : NoSign rest')
    (h : optionText Sign.text sign ++ rest = optionText Sign.text sign' ++ rest') :
    sign = sign' ∧ rest = rest' := by
  have hread := readSign_text sign hrest
  rw [h, readSign_text sign' hrest'] at hread
  obtain ⟨hsign, rfl⟩ := Prod.mk.inj hread
  refine ⟨?_, rfl⟩
  rcases sign with _ | _ | _ <;> rcases sign' with _ | _ | _ <;> first | rfl | exact nomatch hsign

theorem Power.letter_injective {capital capital' : Bool}
    (h : (if capital then 'E' else 'e') = if capital' then 'E' else 'e') : capital = capital' := by
  revert capital capital'
  decide

theorem Power.text_unique {power power' : Option Power} {rest rest' : List Char} (hrest : Ends rest)
    (hrest' : Ends rest')
    (h : optionText Power.text power ++ rest = optionText Power.text power' ++ rest') :
    power = power' ∧ rest = rest' := by
  have hread := readPower_text power hrest
  rw [h, readPower_text power' hrest'] at hread
  obtain rfl : rest' = rest := (Prod.mk.inj hread).2
  refine ⟨?_, rfl⟩
  have htext := List.append_cancel_right h
  cases power with
  | none =>
    cases power' with
    | none => rfl
    | some p' => exact nomatch htext
  | some p =>
    cases power' with
    | none => exact nomatch htext
    | some p' =>
      obtain ⟨capital, sign, digits⟩ := p
      obtain ⟨capital', sign', digits'⟩ := p'
      obtain ⟨hletter, hothers⟩ := List.cons.inj htext
      have hcapital : capital = capital' := Power.letter_injective hletter
      rw [← List.append_nil digits.text, ← List.append_nil digits'.text] at hothers
      obtain ⟨rfl, hdigits⟩ :=
        Sign.text_unique (digits.text_noSign []) (digits'.text_noSign []) hothers
      obtain ⟨rfl, -⟩ := Digits.text_unique ends_nil.noDigit ends_nil.noDigit hdigits
      rw [hcapital]

/-- What a number begins with: a digit or not, a point or not. -/
def lead (text : List Char) : Option (Bool × Bool) :=
  text.head?.map fun c => ((digitValue? c).isSome, c == '.')

/-- What the text of a number begins with. -/
def Numeral.leadOf : Numeral → Bool × Bool
  | .whole _ _ => (true, false)
  | .pointed _ _ _ => (true, false)
  | .fraction _ _ => (false, true)
  | .named _ _ _ => (false, false)

theorem Digits.lead_text (ds : Digits) (rest : List Char) :
    lead (ds.text ++ rest) = some (true, false) := by
  have hall : ∀ d : Fin 10, ((digitValue? (digitChar d)).isSome, digitChar d == '.') =
      (true, false) := by decide
  exact congrArg some (hall ds.first)

theorem Numeral.lead_text (n : Numeral) (rest : List Char) :
    lead (n.text ++ rest) = some n.leadOf := by
  cases n with
  | whole digits power => rw [text, List.append_assoc, digits.lead_text]; rfl
  | pointed digits behind power => rw [text, List.append_assoc, digits.lead_text]; rfl
  | fraction digits power => rfl
  | named name letters spells =>
    obtain ⟨c, others, rfl, hdigit, hpoint, -, -⟩ := Name.first spells
    rw [text, lead, List.cons_append, List.head?_cons, Option.map_some, hdigit,
      beq_eq_false_iff_ne.2 hpoint]
    rfl

theorem Name.letters_injective {name name' : Name} (h : name.letters = name'.letters) :
    name = name' := by
  cases name <;> cases name' <;> first | rfl | exact nomatch h

theorem behind_unique {behind behind' : Option Digits} {rest rest' : List Char}
    (hrest : NoDigit rest) (hrest' : NoDigit rest')
    (h : optionText Digits.text behind ++ rest = optionText Digits.text behind' ++ rest') :
    behind = behind' ∧ rest = rest' := by
  cases behind with
  | none =>
    cases behind' with
    | none => exact ⟨rfl, h⟩
    | some ds' =>
      have hread := readDigits?_of_noDigit hrest
      rw [show rest = ds'.text ++ rest' from h, readDigits?_text ds' hrest'] at hread
      exact nomatch hread
  | some ds =>
    cases behind' with
    | none =>
      have hread := readDigits?_of_noDigit hrest'
      rw [show rest' = ds.text ++ rest from h.symm, readDigits?_text ds hrest] at hread
      exact nomatch hread
    | some ds' =>
      obtain ⟨rfl, hrests⟩ := Digits.text_unique hrest hrest' h
      exact ⟨rfl, hrests⟩

theorem whole_ne_pointed {digits digits' : Digits} {power : Option Power} {rest rest' : List Char}
    (hrest : Ends rest) :
    digits.text ++ (optionText Power.text power ++ rest) ≠ digits'.text ++ '.' :: rest' := by
  intro h
  obtain ⟨-, hpoint⟩ := Digits.text_unique (Power.noDigit hrest) (noDigit_point rest') h
  have hhead := @Power.head_cases power rest hrest '.'
  rw [hpoint] at hhead
  exact (hhead rfl).2.2 rfl

theorem Numeral.text_unique {n n' : Numeral} {rest rest' : List Char} (hrest : Ends rest)
    (hrest' : Ends rest') (h : n.text ++ rest = n'.text ++ rest') : n = n' ∧ rest = rest' := by
  have hlead : n.leadOf = n'.leadOf := by
    have := n.lead_text rest
    rw [h, n'.lead_text] at this
    exact (Option.some.inj this).symm
  cases n with
  | whole digits power =>
    cases n' with
    | whole digits' power' =>
      rw [text, text, List.append_assoc, List.append_assoc] at h
      obtain ⟨rfl, hpower⟩ := Digits.text_unique (Power.noDigit hrest) (Power.noDigit hrest') h
      obtain ⟨rfl, hrests⟩ := Power.text_unique hrest hrest' hpower
      exact ⟨rfl, hrests⟩
    | pointed digits' behind' power' =>
      rw [text, text, List.append_assoc, List.append_assoc] at h
      exact absurd h (whole_ne_pointed hrest)
    | fraction _ _ => cases hlead
    | named _ _ _ => cases hlead
  | pointed digits behind power =>
    cases n' with
    | whole digits' power' =>
      rw [text, text, List.append_assoc, List.append_assoc] at h
      exact absurd h.symm (whole_ne_pointed hrest')
    | pointed digits' behind' power' =>
      rw [text, text, List.append_assoc, List.append_assoc, List.cons_append, List.cons_append,
        List.append_assoc, List.append_assoc] at h
      obtain ⟨rfl, hpoint⟩ := Digits.text_unique (noDigit_point _) (noDigit_point _) h
      have hafter := (List.cons.inj hpoint).2
      obtain ⟨rfl, hpower⟩ := behind_unique (Power.noDigit hrest) (Power.noDigit hrest') hafter
      obtain ⟨rfl, hrests⟩ := Power.text_unique hrest hrest' hpower
      exact ⟨rfl, hrests⟩
    | fraction _ _ => cases hlead
    | named _ _ _ => cases hlead
  | fraction digits power =>
    cases n' with
    | whole _ _ => cases hlead
    | pointed _ _ _ => cases hlead
    | fraction digits' power' =>
      rw [text, text, List.cons_append, List.cons_append, List.append_assoc,
        List.append_assoc] at h
      have hafter := (List.cons.inj h).2
      obtain ⟨rfl, hpower⟩ := Digits.text_unique (Power.noDigit hrest) (Power.noDigit hrest') hafter
      obtain ⟨rfl, hrests⟩ := Power.text_unique hrest hrest' hpower
      exact ⟨rfl, hrests⟩
    | named _ _ _ => cases hlead
  | named name letters spells =>
    cases n' with
    | whole _ _ => cases hlead
    | pointed _ _ _ => cases hlead
    | fraction _ _ => cases hlead
    | named name' letters' spells' =>
      have hread := readNumber?_text (.named name letters spells) hrest
      rw [h, readNumber?_text _ hrest'] at hread
      obtain rfl : rest' = rest := (Prod.mk.inj (Option.some.inj hread)).2
      obtain rfl : letters = letters' := List.append_cancel_right h
      obtain rfl : name = name' := Name.letters_injective (spells.symm.trans spells')
      exact ⟨rfl, rfl⟩

theorem unitText_injective {capital capital' : Bool} (h : unitText capital = unitText capital') :
    capital = capital' := by
  revert capital capital'
  decide

theorem Numeral.text_ne_unitText (n : Numeral) {capital : Bool} {rest : List Char}
    (hrest : Ends rest) : n.text ++ rest ≠ unitText capital := by
  intro h
  have hread := readNumber?_text n hrest
  rw [h, readNumber?_unitText] at hread
  exact nomatch hread

theorem imaginary_unique {im im' : Option Numeral} {capital capital' : Bool}
    (h : optionText Numeral.text im ++ unitText capital =
      optionText Numeral.text im' ++ unitText capital') : im = im' ∧ capital = capital' := by
  cases im with
  | none =>
    cases im' with
    | none => exact ⟨rfl, unitText_injective h⟩
    | some n' => exact absurd h.symm (n'.text_ne_unitText (ends_unitText _))
  | some n =>
    cases im' with
    | none => exact absurd h (n.text_ne_unitText (ends_unitText _))
    | some n' =>
      obtain ⟨rfl, hunit⟩ := Numeral.text_unique (ends_unitText _) (ends_unitText _) h
      exact ⟨rfl, unitText_injective hunit⟩

theorem sign_text_unique {sign sign' : Sign} {rest rest' : List Char}
    (h : sign.text ++ rest = sign'.text ++ rest') : sign = sign' ∧ rest = rest' := by
  cases sign <;> cases sign'
  · exact ⟨rfl, List.append_cancel_left h⟩
  · exact nomatch h
  · exact nomatch h
  · exact ⟨rfl, List.append_cancel_left h⟩

theorem sign_ne_unitText {sign : Sign} {rest : List Char} {capital : Bool} :
    sign.text ++ rest ≠ unitText capital := by
  cases sign <;> cases capital <;> exact nofun

/-- The sign before the whole of a literal. -/
def Literal.sign : Literal → Option Sign
  | .real sign _ => sign
  | .both sign _ _ _ _ => sign
  | .imaginary sign _ _ => sign

/-- The text of a literal behind its sign. -/
def Literal.unsignedText : Literal → List Char
  | .real _ re => re.text
  | .both _ re imSign im capital =>
    re.text ++ (imSign.text ++ (optionText Numeral.text im ++ unitText capital))
  | .imaginary _ im capital => optionText Numeral.text im ++ unitText capital

theorem Literal.text_eq (t : Literal) : t.text = optionText Sign.text t.sign ++ t.unsignedText := by
  cases t <;> rfl

theorem noSign_imaginary (im : Option Numeral) (capital : Bool) :
    NoSign (optionText Numeral.text im ++ unitText capital) := by
  cases im with
  | none => exact noSign_unitText capital
  | some n => exact n.noSign _

theorem Literal.unsignedText_noSign (t : Literal) : NoSign t.unsignedText := by
  cases t with
  | real sign re =>
    have := re.noSign []
    rwa [List.append_nil] at this
  | both sign re imSign im capital => exact re.noSign _
  | imaginary sign im capital => exact noSign_imaginary im capital

theorem real_ne_imaginary {re : Numeral} {im : Option Numeral} {capital : Bool} :
    re.text ≠ optionText Numeral.text im ++ unitText capital := by
  intro h
  rw [← List.append_nil re.text] at h
  cases im with
  | none => exact re.text_ne_unitText ends_nil h
  | some n => exact nomatch (Numeral.text_unique ends_nil (ends_unitText _) h).2

theorem both_ne_imaginary {re : Numeral} {sign : Sign} {im : Option Numeral} {capital : Bool}
    {rest : List Char} :
    re.text ++ (sign.text ++ rest) ≠ optionText Numeral.text im ++ unitText capital := by
  intro h
  cases im with
  | none => exact re.text_ne_unitText (ends_sign sign rest) h
  | some n =>
    exact sign_ne_unitText (Numeral.text_unique (ends_sign sign rest) (ends_unitText _) h).2

theorem real_ne_both {re re' : Numeral} {sign : Sign} {rest : List Char} :
    re.text ≠ re'.text ++ (sign.text ++ rest) := by
  intro h
  rw [← List.append_nil re.text] at h
  have := (Numeral.text_unique ends_nil (ends_sign sign rest) h).2
  cases sign <;> exact nomatch this

/-- A text has at most one derivation. -/
theorem Literal.text_injective {t t' : Literal} (h : t.text = t'.text) : t = t' := by
  rw [text_eq, text_eq] at h
  obtain ⟨hsign, hunsigned⟩ :=
    Sign.text_unique t.unsignedText_noSign t'.unsignedText_noSign h
  cases t with
  | real sign re =>
    obtain rfl : sign = t'.sign := hsign
    cases t' with
    | real sign' re' =>
      have hre : re.text ++ [] = re'.text ++ [] := congrArg (· ++ []) hunsigned
      obtain ⟨rfl, -⟩ := Numeral.text_unique ends_nil ends_nil hre
      rfl
    | both _ _ _ _ _ => exact absurd hunsigned real_ne_both
    | imaginary _ _ _ => exact absurd hunsigned real_ne_imaginary
  | both sign re imSign im capital =>
    obtain rfl : sign = t'.sign := hsign
    cases t' with
    | real _ _ => exact absurd hunsigned.symm real_ne_both
    | both sign' re' imSign' im' capital' =>
      obtain ⟨rfl, hrest⟩ := Numeral.text_unique (ends_sign _ _) (ends_sign _ _) hunsigned
      obtain ⟨rfl, himaginary⟩ := sign_text_unique hrest
      obtain ⟨rfl, rfl⟩ := imaginary_unique himaginary
      rfl
    | imaginary _ _ _ => exact absurd hunsigned both_ne_imaginary
  | imaginary sign im capital =>
    obtain rfl : sign = t'.sign := hsign
    cases t' with
    | real _ _ => exact absurd hunsigned.symm real_ne_imaginary
    | both _ _ _ _ _ => exact absurd hunsigned.symm both_ne_imaginary
    | imaginary sign' im' capital' =>
      obtain ⟨rfl, rfl⟩ := imaginary_unique hunsigned
      rfl

end RecordCheck.Complex
