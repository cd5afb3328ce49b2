import RecordCheck.Proofs.Decimal.Value
import RecordCheck.Complex.Literal
set_option autoImplicit false

/-!
# Complex: the grammar of literals

A derivation of a literal is a tree that keeps every choice the grammar leaves: each sign, each
underscore, the case of each letter.  A tree has a text and names a complex number; `Literal.Names`
says which, in terms of the number that its digits write in base ten and of the double nearest to
that.
-/

namespace RecordCheck.Complex

open Binary64

/-- The character of a digit. -/
def digitChar (d : Fin 10) : Char := Nat.digitChar d

/-- A run of digits: the first, and each further one with whether an underscore goes before it. -/
structure Digits where
  first : Fin 10
  others : List (Bool × Fin 10)
  deriving DecidableEq, Repr

namespace Digits

/-- The text of the further digits. -/
def othersText : List (Bool × Fin 10) → List Char
  | [] => []
  | (true, d) :: rest => '_' :: digitChar d :: othersText rest
  | (false, d) :: rest => digitChar d :: othersText rest

/-- The text of a run. -/
def text (ds : Digits) : List Char := digitChar ds.first :: othersText ds.others

/-- The digits of a run, the most significant first. -/
def values (ds : Digits) : List Nat := ds.first :: ds.others.map fun d => d.2

/-- A run of digits without underscores. -/
def ofList (first : Fin 10) (others : List (Fin 10)) : Digits :=
  ⟨first, others.map fun d => (false, d)⟩

theorem othersText_ofList (others : List (Fin 10)) :
    othersText (others.map fun d => (false, d)) = others.map digitChar := by
  induction others with
  | nil => rfl
  | cons d others ih => rw [List.map_cons, othersText, ih, List.map_cons]

theorem text_ofList (first : Fin 10) (others : List (Fin 10)) :
    (ofList first others).text = (first :: others).map digitChar :=
  congrArg (digitChar first :: ·) (othersText_ofList others)

theorem values_ofList (first : Fin 10) (others : List (Fin 10)) :
    (ofList first others).values = (first :: others).map Fin.val := by
  simp only [values, ofList, List.map_map, List.map_cons]
  rfl

end Digits

/-- A sign. -/
inductive Sign where
  | plus
  | minus
  deriving DecidableEq, Repr

/-- The text of a sign. -/
def Sign.text : Sign → List Char
  | .plus => ['+']
  | .minus => ['-']

/-- The text of a part that may be left out. -/
def optionText {α : Type} (text : α → List Char) : Option α → List Char
  | none => []
  | some a => text a

/-- A power of ten: `e`, in either case, and digits with or without a sign. -/
structure Power where
  capital : Bool
  sign : Option Sign
  digits : Digits
  deriving DecidableEq, Repr

/-- The text of a power of ten. -/
def Power.text (p : Power) : List Char :=
  (if p.capital then 'E' else 'e') :: (optionText Sign.text p.sign ++ p.digits.text)

/-- The names that stand for a number. -/
inductive Name where
  | nan
  | inf
  | infinity
  deriving DecidableEq, Repr

/-- The letters of a name. -/
def Name.letters : Name → List Char
  | .nan => ['n', 'a', 'n']
  | .inf => ['i', 'n', 'f']
  | .infinity => ['i', 'n', 'f', 'i', 'n', 'i', 't', 'y']

/-- An unsigned number. -/
inductive Numeral where
  /-- digits, with or without a power -/
  | whole (digits : Digits) (power : Option Power)
  /-- digits and a point, with or without more digits, with or without a power -/
  | pointed (digits : Digits) (behind : Option Digits) (power : Option Power)
  /-- a point and digits, with or without a power -/
  | fraction (digits : Digits) (power : Option Power)
  /-- a name, its letters in either case -/
  | named (name : Name) (letters : List Char) (spells : letters.map Char.toLower = name.letters)
  deriving DecidableEq, Repr

/-- The text of a number. -/
def Numeral.text : Numeral → List Char
  | .whole digits power => digits.text ++ optionText Power.text power
  | .pointed digits behind power =>
    digits.text ++ '.' :: (optionText Digits.text behind ++ optionText Power.text power)
  | .fraction digits power => '.' :: (digits.text ++ optionText Power.text power)
  | .named _ letters _ => letters

/-- A derivation of a literal. -/
inductive Literal where
  /-- a real part alone -/
  | real (sign : Option Sign) (re : Numeral)
  /-- both parts; without a number the imaginary part is the unit -/
  | both (sign : Option Sign) (re : Numeral) (imSign : Sign) (im : Option Numeral) (capital : Bool)
  /-- an imaginary part alone -/
  | imaginary (sign : Option Sign) (im : Option Numeral) (capital : Bool)
  deriving DecidableEq, Repr

/-- The imaginary unit in either case. -/
def unitText (capital : Bool) : List Char := [if capital then 'J' else 'j']

/-- The text of a literal. -/
def Literal.text : Literal → List Char
  | .real sign re => optionText Sign.text sign ++ re.text
  | .both sign re imSign im capital =>
    optionText Sign.text sign ++ (re.text ++
      (imSign.text ++ (optionText Numeral.text im ++ unitText capital)))
  | .imaginary sign im capital =>
    optionText Sign.text sign ++ (optionText Numeral.text im ++ unitText capital)

/-! ## What a literal names -/

/-- The sign is a minus. -/
def isMinus (sign : Option Sign) : Bool := sign == some .minus

/-- The number that digits write in base ten, the most significant first. -/
def baseTen (digits : List Nat) : Nat := Nat.ofDigits 10 digits.reverse

/-- The power of ten that is written; none stands for `10 ^ 0`. -/
def powerValue : Option Power → Int
  | none => 0
  | some p => if isMinus p.sign then -(baseTen p.digits.values : Int) else baseTen p.digits.values

/-- The number that digits before and after a point and a power of ten write. -/
def positionalValue (whole fraction : List Nat) (power : Option Power) : ℚ :=
  (baseTen whole + baseTen fraction / 10 ^ fraction.length) * 10 ^ powerValue power

/-- The word is that of the double that a sign and a number name: the one nearest to what the digits
write, with the underscores left out, or what a name stands for.  What is not a number keeps the
sign. -/
def Numeral.Names (negative : Bool) : Numeral → UInt64 → Prop
  | .whole digits power, bits =>
    IsNearestBits negative (positionalValue digits.values [] power) bits
  | .pointed digits none power, bits =>
    IsNearestBits negative (positionalValue digits.values [] power) bits
  | .pointed digits (some behind) power, bits =>
    IsNearestBits negative (positionalValue digits.values behind.values power) bits
  | .fraction digits power, bits =>
    IsNearestBits negative (positionalValue [] digits.values power) bits
  | .named .nan _ _, bits => bits = signedBits negative notNumberBits
  | .named .inf _ _, bits => bits = signedBits negative infinityBits
  | .named .infinity _ _, bits => bits = signedBits negative infinityBits

/-- The word is that of the imaginary part that a sign and a number name; without a number it is
one. -/
def NamesImaginary (negative : Bool) : Option Numeral → UInt64 → Prop
  | some n, bits => n.Names negative bits
  | none, bits => IsNearestBits negative 1 bits

/-- `c` is the complex number that a literal names; a part that is left out is zero without sign. -/
def Literal.Names : Literal → Complex → Prop
  | .real sign re, c => re.Names (isMinus sign) c.re ∧ c.im = signedBits false 0
  | .both sign re imSign im _, c =>
    re.Names (isMinus sign) c.re ∧ NamesImaginary (isMinus (some imSign)) im c.im
  | .imaginary sign im _, c => c.re = signedBits false 0 ∧ NamesImaginary (isMinus sign) im c.im

/-! ## The characters of literals -/

/-- The character is one of ASCII, and neither blank nor an opening parenthesis. -/
def Plain (c : Char) : Prop := c.toNat < 128 ∧ Text.isBlank c = false ∧ c ≠ '('

theorem plain_digitChar (d : Fin 10) : Plain (digitChar d) := by
  revert d
  unfold Plain
  decide

theorem Digits.text_plain (ds : Digits) : ∀ c ∈ ds.text, Plain c := by
  have hothers : ∀ others, ∀ c ∈ othersText others, Plain c := by
    intro others
    induction others with
    | nil => exact nofun
    | cons d others ih =>
      obtain ⟨_ | _, d⟩ := d
      · exact List.forall_mem_cons.2 ⟨plain_digitChar d, ih⟩
      · exact List.forall_mem_cons.2
          ⟨by unfold Plain; decide, List.forall_mem_cons.2 ⟨plain_digitChar d, ih⟩⟩
  exact List.forall_mem_cons.2 ⟨plain_digitChar _, hothers _⟩

theorem Sign.text_plain (sign : Sign) : ∀ c ∈ sign.text, Plain c := by
  unfold Plain
  cases sign <;> exact List.forall_mem_singleton.2 (by decide)

theorem optionText_plain {α : Type} {text : α → List Char} (h : ∀ a, ∀ c ∈ text a, Plain c)
    (a : Option α) : ∀ c ∈ optionText text a, Plain c := by
  cases a with
  | none => exact nofun
  | some a => exact h a

theorem Power.text_plain (p : Power) : ∀ c ∈ p.text, Plain c := by
  refine List.forall_mem_cons.2 ⟨?_, List.forall_mem_append.2
    ⟨optionText_plain Sign.text_plain p.sign, p.digits.text_plain⟩⟩
  unfold Plain
  cases p.capital <;> decide

/-- Only the capitals of ASCII have another small letter than themselves. -/
theorem toLower_cases (c : Char) : c.toLower = c ∨
    (65 ≤ c.toNat ∧ c.toNat ≤ 90) ∧ c.toLower.toNat = c.toNat + 32 := by
  unfold Char.toLower
  split_ifs with hcapital
  · obtain ⟨hlow, hhigh⟩ := hcapital
    have hlow' : 65 ≤ c.toNat := hlow
    have hhigh' : c.toNat ≤ 90 := hhigh
    refine .inr ⟨⟨hlow', hhigh'⟩, ?_⟩
    show (c.val + 32).toNat = c.val.toNat + 32
    rw [UInt32.toNat_add]
    exact Nat.mod_eq_of_lt (show c.toNat + 32 < 2 ^ 32 by omega)
  · exact .inl rfl

theorem plain_capital {c : Char} (hlow : 65 ≤ c.toNat) (hhigh : c.toNat ≤ 90) : Plain c := by
  refine ⟨by omega, ?_, ?_⟩
  · simp [Text.isBlank]
    omega
  · rintro rfl
    exact absurd hlow (by decide)

theorem plain_of_toLower {c : Char} {name : Name} (h : c.toLower ∈ name.letters) : Plain c := by
  have hall : ∀ c ∈ name.letters, Plain c := by
    unfold Plain
    cases name <;> simp only [Name.letters, List.forall_mem_cons] <;> simp <;> decide
  rcases toLower_cases c with hsame | ⟨⟨hlow, hhigh⟩, -⟩
  · exact hsame ▸ hall _ h
  · exact plain_capital hlow hhigh

theorem Numeral.text_plain (n : Numeral) : ∀ c ∈ n.text, Plain c := by
  have hpoint : Plain '.' := by unfold Plain; decide
  cases n with
  | whole digits power =>
    exact List.forall_mem_append.2 ⟨digits.text_plain, optionText_plain Power.text_plain power⟩
  | pointed digits behind power =>
    exact List.forall_mem_append.2 ⟨digits.text_plain, List.forall_mem_cons.2 ⟨hpoint,
      List.forall_mem_append.2 ⟨optionText_plain Digits.text_plain behind,
        optionText_plain Power.text_plain power⟩⟩⟩
  | fraction digits power =>
    exact List.forall_mem_cons.2 ⟨hpoint,
      List.forall_mem_append.2 ⟨digits.text_plain, optionText_plain Power.text_plain power⟩⟩
  | named name letters spells =>
    intro c hc
    refine @plain_of_toLower c name ?_
    rw [← spells]
    exact List.mem_map_of_mem hc

theorem unitText_plain (capital : Bool) : ∀ c ∈ unitText capital, Plain c := by
  unfold Plain
  cases capital <;> exact List.forall_mem_singleton.2 (by decide)

theorem Literal.text_plain (t : Literal) : ∀ c ∈ t.text, Plain c := by
  have himaginary : ∀ im capital, ∀ c ∈ optionText Numeral.text im ++ unitText capital, Plain c :=
    fun im capital => List.forall_mem_append.2
      ⟨optionText_plain Numeral.text_plain im, unitText_plain capital⟩
  cases t with
  | real sign re =>
    exact List.forall_mem_append.2 ⟨optionText_plain Sign.text_plain sign, re.text_plain⟩
  | both sign re imSign im capital =>
    exact List.forall_mem_append.2 ⟨optionText_plain Sign.text_plain sign,
      List.forall_mem_append.2 ⟨re.text_plain,
        List.forall_mem_append.2 ⟨imSign.text_plain, himaginary im capital⟩⟩⟩
  | imaginary sign im capital =>
    exact List.forall_mem_append.2 ⟨optionText_plain Sign.text_plain sign, himaginary im capital⟩

end RecordCheck.Complex
