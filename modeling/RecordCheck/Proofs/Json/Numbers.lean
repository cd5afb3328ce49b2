import RecordCheck.Proofs.Json.Reading
import RecordCheck.Proofs.Decimal.Size
import RecordCheck.Proofs.Complex.Written
import RecordCheck.Json.Printer
set_option autoImplicit false

/-!
# JSON: how written numbers are read

The text of a number is a numeral, whose significand and power of ten are what reading multiplies.
Main statements: an integer in range is read back (`valueOver_integer`), and the text of a double is
read as the double that its decimal gives, whatever ends the number (`valueOver_floatText`).
-/

namespace RecordCheck.Json

open Text
open RecordCheck.Complex (baseTen baseTen_append baseTen_cons baseTen_lt digitChar)

/-! ## The values of numerals -/

/-- All digits are taken if the number stays small. -/
theorem takeDigits_eq {limit n : Nat} {ds : List Nat}
    (h : n * 10 ^ ds.length + baseTen ds ≤ limit) :
    takeDigits limit n ds = (n * 10 ^ ds.length + baseTen ds, 0) := by
  induction ds generalizing n with
  | nil => simp [takeDigits, baseTen]
  | cons d ds ih =>
    have heq : n * 10 ^ (d :: ds).length + baseTen (d :: ds) =
        (10 * n + d) * 10 ^ ds.length + baseTen ds := by
      rw [baseTen_cons, List.length_cons, pow_succ]
      ring
    rw [heq] at h ⊢
    have hle : 10 * n + d ≤ limit := by
      have hpow : 0 < 10 ^ ds.length := Nat.pow_pos (by decide)
      have := Nat.le_mul_of_pos_right (10 * n + d) hpow
      omega
    rw [takeDigits, if_pos hle, ih h]

namespace Numeral

/-- The number that digits write. -/
def count (ds : List (Fin 10)) : Nat := baseTen (ds.map Fin.val)

/-- By how much a power shifts the point. -/
def shift : Option Power → Int
  | none => 0
  | some p => if p.down then -(count p.digits : Int) else count p.digits

/-- The power is small enough to be counted. -/
def Small (power : Option Power) : Prop := ∀ p ∈ power, count p.digits ≤ powerLimit

theorem takeDigits_count {limit : Nat} {ds : List (Fin 10)} (h : count ds ≤ limit) :
    takeDigits limit 0 (ds.map Fin.val) = (count ds, 0) := by
  have heq := @takeDigits_eq limit 0 (ds.map Fin.val)
  rw [Nat.zero_mul, Nat.zero_add] at heq
  exact heq h

theorem scaledValue?_eq {power : Option Power} (h : Small power) (negative : Bool)
    (significand : Nat) (start : Int) : scaledValue? power negative significand start =
      (scaled? significand (start + shift power)).map (signed negative) := by
  cases power with
  | none => rw [scaledValue?, shift, Int.add_zero]
  | some p =>
    rw [scaledValue?, Power.value?, takeDigits_count (h p rfl), shift]
    cases p.down
    · rfl
    · rfl

/-- A numeral with a fraction or a power is read as its significand, scaled. -/
theorem value?_eq {n : Numeral} (hsplit : n.fraction ≠ [] ∨ n.power.isSome)
    (hcount : count (n.whole ++ n.fraction) ≤ significandLimit) (hpower : Small n.power)
    (negative : Bool) : n.value? negative =
      (scaled? (count (n.whole ++ n.fraction)) (shift n.power - n.fraction.length)).map
        (signed negative) := by
  obtain ⟨whole, frac, power⟩ := n
  simp only at *
  have hjoined : count (whole ++ frac) = count whole * 10 ^ frac.length + count frac := by
    rw [count, List.map_append, baseTen_append, List.length_map]
    rfl
  have hwhole : count whole ≤ significandLimit := by
    have hpow : 0 < 10 ^ frac.length := Nat.pow_pos (by decide)
    have := Nat.le_mul_of_pos_right (count whole) hpow
    omega
  rw [value?, takeDigits_count hwhole]
  cases frac with
  | nil =>
    cases power with
    | none => simp at hsplit
    | some p =>
      simp only [Option.isNone_some, Bool.false_and, Bool.false_eq_true, if_false,
        scaledValue?_eq hpower, List.append_nil, List.length_nil]
      congr 2
      ring
  | cons d ds =>
    have htake : takeDigits significandLimit (count whole) ((d :: ds).map Fin.val) =
        (count (whole ++ d :: ds), 0) := by
      rw [hjoined] at hcount ⊢
      have heq := @takeDigits_eq significandLimit (count whole) ((d :: ds).map Fin.val)
      rw [List.length_map] at heq
      exact heq hcount
    simp only [fractionValue?, htake, Nat.sub_zero, scaledValue?_eq hpower]
    congr 2
    push_cast
    ring

theorem value?_whole {n : Numeral} (hfraction : n.fraction = []) (hpower : n.power = none)
    (hcount : count n.whole ≤ significandLimit) (negative : Bool) :
    n.value? negative = some (wholeNumber negative (count n.whole)) := by
  obtain ⟨whole, frac, power⟩ := n
  simp only at *
  subst hfraction hpower
  rw [value?, takeDigits_count hcount]
  rfl

end Numeral

/-! ## Written digits -/

theorem utf8_digits (ds : List (Fin 10)) : utf8 (ds.map digitChar) = digitBytes ds := by
  have hdigit : ∀ d : Fin 10, String.utf8EncodeChar (digitChar d) = [digitByte d] := by decide
  induction ds with
  | nil => rfl
  | cons d ds ih =>
    rw [List.map_cons, utf8_cons, hdigit, ih, digitBytes_cons, List.singleton_append]

/-- The digits behind the point are those of a fraction. -/
theorem utf8_behindText (behind : List (Fin 10)) :
    utf8 (Complex.behindText "" behind) = Numeral.fractionBytes behind := by
  cases behind with
  | nil => rfl
  | cons d ds =>
    rw [Complex.behindText, if_neg (List.cons_ne_nil d ds), utf8_cons, utf8_digits]
    rfl

/-! ## Written magnitudes -/

/-- The text is that of a numeral which is read as a coefficient, scaled by a power of ten. -/
def Spells (text : List Char) (d : Decimal) : Prop :=
  ∃ n : Numeral, n.WellFormed ∧ utf8 text = n.bytes ∧
    ∀ negative, n.value? negative = (scaled? d.coefficient d.exponent).map (signed negative)

theorem spells_pointed {whole behind : List (Fin 10)} (hwhole : whole ≠ [])
    (hleading : whole.head? = some 0 → whole = [0]) (hbehind : behind ≠ [])
    (hcount : Numeral.count (whole ++ behind) ≤ significandLimit) :
    Spells (whole.map digitChar ++ '.' :: behind.map digitChar)
      ⟨Numeral.count (whole ++ behind), -behind.length⟩ := by
  refine ⟨⟨whole, behind, none⟩, ⟨hwhole, hleading, by simp⟩, ?_, fun negative => ?_⟩
  · obtain ⟨d, ds, rfl⟩ := List.exists_cons_of_ne_nil hbehind
    rw [utf8_append, utf8_cons, utf8_digits, utf8_digits, Numeral.bytes, Numeral.fractionBytes,
      Numeral.powerBytes, List.append_nil]
    rfl
  · have hsmall : Numeral.Small none := by simp [Numeral.Small]
    rw [Numeral.value?_eq (.inl hbehind) hcount hsmall]
    simp only [Numeral.shift, Int.zero_sub]

/-- The decimal that a written magnitude is read as: a whole number is written with a zero behind
the point, which counts as a digit. -/
def asRead (d : Decimal) : Decimal :=
  if 0 ≤ d.exponent ∧ d.leadingPower ≤ 15 then ⟨d.coefficient * 10 ^ (d.exponent.toNat + 1), -1⟩
  else d

theorem positional_spells {d : Decimal} (hcoefficient : d.coefficient ≠ 0)
    (hsize : d.coefficient ≤ 10 ^ 17) (hpower : d.leadingPower ≤ 15) :
    Spells (d.positional ".0").toList (asRead d) := by
  obtain ⟨first, others, hfirst, hdigits, hvalue⟩ := Complex.exists_leading hcoefficient
  have hds : first :: others ≠ [] := List.cons_ne_nil _ _
  obtain ⟨whole, behind, hplaced, htext⟩ := Complex.positional_digits ".0" hds hdigits
  have hwhole := hplaced.whole_ne_nil hds
  have hleading := hplaced.leading hds fun h => hfirst (Option.some.inj h)
  rw [htext]
  unfold asRead Complex.behindText
  rw [Decimal.leadingPower, Decimal.digits, hdigits, List.length_map] at hpower ⊢
  obtain ⟨coefficient, exponent⟩ := d
  simp only at hvalue hpower hplaced hsize ⊢
  generalize first :: others = ds at *
  obtain rfl : Numeral.count ds = coefficient := hvalue
  cases hplaced with
  | front zeros =>
    -- One more zero is written behind the point.
    have hzeros : ds ++ List.replicate zeros 0 ++ [0] = ds ++ List.replicate (zeros + 1) 0 := by
      rw [List.append_assoc, List.replicate_succ']
    have hcount : Numeral.count (ds ++ List.replicate zeros 0 ++ [0]) =
        Numeral.count ds * 10 ^ (zeros + 1) := by
      rw [hzeros, Numeral.count, List.map_append, List.map_replicate]
      exact Complex.baseTen_zeros_behind _ _
    have hlimit : Numeral.count (ds ++ List.replicate zeros 0 ++ [0]) ≤ significandLimit := by
      have hlt : Numeral.count _ < _ := baseTen_lt (ds ++ List.replicate zeros 0 ++ [0])
      have hpow : 10 ^ (ds ++ List.replicate zeros (0 : Fin 10) ++ [0]).length ≤ 10 ^ 17 := by
        refine Nat.pow_le_pow_right (by decide) ?_
        rw [hzeros, List.length_append, List.length_replicate]
        omega
      exact hlt.le.trans (hpow.trans (by decide))
    have hspells := spells_pointed hwhole hleading (List.cons_ne_nil 0 []) hlimit
    rw [hcount] at hspells
    simpa [hpower, Complex.digitChar_zero] using hspells
  | around parts whole_ne behind_ne =>
    have hread : ¬((0 : Int) ≤ -behind.length ∧ (-behind.length : Int) + ds.length - 1 ≤ 15) := by
      have := List.length_pos_iff.2 behind_ne
      omega
    rw [if_neg behind_ne, if_neg hread, parts]
    rw [parts] at hsize
    exact spells_pointed whole_ne hleading behind_ne (hsize.trans (by decide))
  | behind zeros =>
    have hbehind : List.replicate zeros 0 ++ ds ≠ [] := List.append_ne_nil_of_right_ne_nil _ hds
    have hcount : Numeral.count ([0] ++ (List.replicate zeros 0 ++ ds)) = Numeral.count ds := by
      rw [Numeral.count, List.map_append, List.map_append, List.map_replicate]
      exact (Complex.baseTen_zeros_before _ 1).trans (Complex.baseTen_zeros_before _ zeros)
    have hspells := spells_pointed (List.cons_ne_nil 0 []) (fun _ => rfl) hbehind
      (hcount.le.trans (hsize.trans (by decide)))
    rw [hcount] at hspells
    rw [if_neg hbehind, if_neg (by have := List.length_pos_iff.2 hbehind; omega)]
    exact hspells

theorem exists_writtenPower {power : Int} (hsize : power.natAbs ≤ powerLimit) : ∃ p : Power,
    p.digits ≠ [] ∧ utf8 (exponentStyle.write power).toList = Numeral.powerBytes (some p) ∧
      Numeral.Small (some p) ∧ Numeral.shift (some p) = power := by
  obtain ⟨ds, htext, hlength, -, hvalue⟩ :=
    Complex.power_digits (show 0 < exponentStyle.width by decide) power
  have hne : ds ≠ [] := List.length_pos_iff.1 (Nat.lt_of_lt_of_le (by decide) hlength)
  have hsmall (sign : Option Bool) : Numeral.Small (some ⟨false, sign, ds⟩) := by
    intro p hp
    obtain rfl := Option.some.inj hp
    exact hvalue.trans_le hsize
  rw [htext, utf8_cons, utf8_append, utf8_digits]
  by_cases hnegative : power < 0
  · refine ⟨⟨false, some true, ds⟩, hne, ?_, hsmall _, ?_⟩
    · rw [if_pos hnegative]
      rfl
    · rw [Numeral.shift, Numeral.count, hvalue]
      show -(power.natAbs : Int) = power
      omega
  · refine ⟨⟨false, some false, ds⟩, hne, ?_, hsmall _, ?_⟩
    · rw [if_neg hnegative]
      rfl
    · rw [Numeral.shift, Numeral.count, hvalue]
      show (power.natAbs : Int) = power
      omega

theorem scientific_spells {d : Decimal} (hcoefficient : d.coefficient ≠ 0)
    (hsize : d.coefficient ≤ 10 ^ 17) (hpower : d.leadingPower.natAbs ≤ powerLimit) :
    Spells (d.scientific exponentStyle).toList d := by
  obtain ⟨p, hp, hptext, hpsmall, hpshift⟩ := exists_writtenPower hpower
  obtain ⟨first, others, hfirst, hdigits, hvalue⟩ := Complex.exists_leading hcoefficient
  obtain ⟨htext, hexponent⟩ := Complex.scientific_digits exponentStyle hdigits
  have hleading : [first].head? = some 0 → [first] = [0] := fun h => by
    rw [Option.some.inj h]
  refine ⟨⟨[first], others, some p⟩, ⟨List.cons_ne_nil _ _, hleading, fun q hq => ?_⟩, ?_,
    fun negative => ?_⟩
  · obtain rfl := Option.some.inj hq
    exact hp
  · have hfirst : [digitChar first] = [first].map digitChar := rfl
    rw [htext, ← List.singleton_append, hfirst, utf8_append, utf8_digits, utf8_append,
      utf8_behindText, hptext]
    rfl
  · have hcount : Numeral.count ([first] ++ others) = d.coefficient := hvalue
    rw [Numeral.value?_eq (.inr rfl) (hcount.trans_le (hsize.trans (by decide))) hpsmall, hpshift]
    simp only [hcount, hexponent]

/-- The decimal that is written of a magnitude. -/
def written (significand : Nat) (exponent : Int) : Decimal :=
  if significand = 0 then ⟨0, 0⟩ else Decimal.shortest .even significand exponent

theorem magnitudeText_spells {word : Nat} (h : word < Binary64.infinityBits) :
    Spells (magnitudeText (Binary64.significand word) (Binary64.power word)).toList
      (asRead (written (Binary64.significand word) (Binary64.power word))) := by
  unfold magnitudeText written
  by_cases hzero : word = 0
  · subst hzero
    have hspells := @spells_pointed [0] [0] (List.cons_ne_nil _ _) (fun _ => rfl)
      (List.cons_ne_nil _ _) (by decide)
    have hsignificand := (Binary64.significand_of_lt (show 0 < Binary64.binade by decide)).1
    simp only [hsignificand, if_true]
    exact hspells
  · have hpos : 0 < word := Nat.pos_of_ne_zero hzero
    have hsignificand := Binary64.significand_pos hpos
    rw [if_neg hsignificand.ne', if_neg hsignificand.ne']
    have hnearest := Decimal.isNearest_shortest .even hpos h
    have hsize := Decimal.shortest_coefficient_le .even (Binary64.power word) hsignificand
      (Binary64.significand_lt word)
    simp only
    generalize Decimal.shortest .even _ _ = d at *
    obtain ⟨hcoefficient, hlow, hhigh⟩ := Decimal.leadingPower_bounds hpos h hnearest
    split_ifs with hmiddling
    · exact positional_spells hcoefficient hsize hmiddling.2
    · have hlimit : 400 ≤ powerLimit := by decide
      have hread : asRead d = d := by
        rw [asRead, if_neg]
        rintro ⟨hexponent, hpower⟩
        refine hmiddling ⟨?_, hpower⟩
        have hlength : 0 < d.digits.length := by
          rw [Decimal.digits, Decimal.length_toDigits hcoefficient, Decimal.digitCount,
            if_neg hcoefficient]
          exact Nat.succ_pos _
        rw [Decimal.leadingPower]
        omega
      rw [hread]
      exact scientific_spells hcoefficient hsize (by omega)

/-! ## Numbers in a text -/

/-- A number is read as such from its sign or first digit on. -/
theorem valueOver_number (rounds : Nat) (inner : Option (Reader Json)) {n : Numeral}
    (hn : n.WellFormed) (negative : Bool) (rest : Bytes) :
    valueOver rounds inner ((if negative then [0x2d] else []) ++ (n.bytes ++ rest)) =
      number negative (n.bytes ++ rest) := by
  cases negative with
  | true => rfl
  | false =>
    obtain ⟨d, ds, hds⟩ := List.exists_cons_of_ne_nil hn.whole
    have hfirst : ∀ d : Fin 10, digitByte d ≠ 0x6e ∧ digitByte d ≠ 0x74 ∧ digitByte d ≠ 0x66 ∧
        digitByte d ≠ 0x2d := by decide
    obtain ⟨hnull, htrue, hfalse, hminus⟩ := hfirst d
    have hbytes : n.bytes ++ rest =
        digitByte d :: (digitBytes ds ++ (Numeral.fractionBytes n.fraction ++
          Numeral.powerBytes n.power) ++ rest) := by
      rw [Numeral.bytes, hds]
      rfl
    rw [hbytes]
    simp [valueOver, skipSpace_cons (isSpace_of_isDigit (isDigit_digitByte d)), hnull, htrue,
      hfalse, hminus]

/-- What the text of a double is read as. -/
def readFloat (x : Float) : Option Json :=
  match Binary64.Datum.ofFloat x with
  | .nan => some .null
  | .infinite _ => some .null
  | .finite negative significand exponent =>
    let d := asRead (written significand exponent)
    (scaled? d.coefficient d.exponent).map (signed negative)

/-- The double that the text of a finite one is read as, unless it is too large. -/
def reread? (x : Float) : Option Float :=
  match Binary64.Datum.ofFloat x with
  | .nan => none
  | .infinite _ => none
  | .finite negative significand exponent =>
    let d := asRead (written significand exponent)
    (scaled? d.coefficient d.exponent).map fun y => if negative then -y else y

theorem readFloat_eq_float_iff {x y : Float} :
    readFloat x = some (.float y) ↔ reread? x = some y := by
  unfold readFloat reread?
  split <;> simp [signed]

theorem valueOver_null (rounds : Nat) (inner : Option (Reader Json)) (rest : Bytes) :
    valueOver rounds inner (utf8 ['n', 'u', 'l', 'l'] ++ rest) = .ok (.null, rest) := rfl

/-- The text of a double is read as `readFloat` says, in front of anything that ends a number. -/
theorem valueOver_floatText (rounds : Nat) (inner : Option (Reader Json)) (x : Float) {rest : Bytes}
    (hrest : Ends rest) {y : Json} {rest' : Bytes} :
    valueOver rounds inner (utf8 (floatText x).toList ++ rest) = .ok (y, rest') ↔
      readFloat x = some y ∧ rest = rest' := by
  have hnull : valueOver rounds inner (utf8 "null".toList ++ rest) = .ok (y, rest') ↔
      some Json.null = some y ∧ rest = rest' := by
    rw [show "null".toList = ['n', 'u', 'l', 'l'] by decide, valueOver_null]
    simp
  unfold floatText readFloat
  rcases Binary64.float_cases x with rfl | ⟨negative, word, hword, rfl⟩
  · have hnan : Binary64.Datum.ofFloat Binary64.notNumber = .nan := by decide +kernel
    rw [hnan]
    exact hnull
  · rw [Binary64.ofFloat_withSign hword]
    split_ifs with hinfinite
    · exact hnull
    · obtain ⟨n, hn, hbytes, hvalue⟩ := magnitudeText_spells (lt_of_le_of_ne hword hinfinite)
      have htext : utf8 (if negative = true then "-" ++ magnitudeText (Binary64.significand word)
            (Binary64.power word) else magnitudeText (Binary64.significand word)
              (Binary64.power word)).toList = (if negative then [0x2d] else []) ++ n.bytes := by
        cases negative
        · exact hbytes
        · rw [if_pos rfl, String.toList_append, utf8_append, hbytes]
          rfl
      simp only
      rw [htext, List.append_assoc, valueOver_number _ _ hn, number_bytes hn (hrest.endsBefore n),
        hvalue]

/-! ## Integers -/

/-- The digits of a natural number are a numeral without fraction and power. -/
theorem exists_wholeNumeral {n : Nat} (hn : n ≤ significandLimit) : ∃ numeral : Numeral,
    numeral.WellFormed ∧ utf8 (Nat.toDigits 10 n) = numeral.bytes ∧
      ∀ negative, numeral.value? negative = some (wholeNumber negative n) := by
  obtain ⟨ds, hne, hleading, htext, hvalue⟩ := Complex.exists_digits n
  obtain rfl : Numeral.count ds = n := hvalue
  refine ⟨⟨ds, [], none⟩, ⟨hne, hleading, by simp⟩, ?_, Numeral.value?_whole rfl rfl hn⟩
  rw [htext, utf8_digits, Numeral.bytes]
  simp [Numeral.fractionBytes, Numeral.powerBytes]

/-- An integer in range is read back. -/
theorem valueOver_integer {n : Int} (hlow : -(twoTo 63 : Int) ≤ n) (hhigh : n < twoTo 64)
    {rest : Bytes} (hrest : Ends rest) :
    valueOver 0 none (utf8 (toString n).toList ++ rest) = .ok (.integer n, rest) := by
  have hlimit : (significandLimit : Int) = twoTo 64 - 1 := by decide
  have hhalf : (2 * twoTo 63 : Int) = twoTo 64 := by decide
  cases n with
  | ofNat m =>
    obtain ⟨numeral, hn, hbytes, hvalue⟩ := @exists_wholeNumeral m (by
      rw [Int.ofNat_eq_natCast] at hhigh
      omega)
    have htext : utf8 (toString (Int.ofNat m)).toList = numeral.bytes := by
      rw [← hbytes, show toString (Int.ofNat m) = Nat.repr m from rfl, Nat.repr,
        String.toList_ofList]
    have hread := valueOver_number 0 none hn false rest
    rw [htext]
    refine hread.trans ((number_bytes hn (hrest.endsBefore numeral) false).2 ⟨?_, rfl⟩)
    rw [hvalue]
    rfl
  | negSucc m =>
    obtain ⟨numeral, hn, hbytes, hvalue⟩ := @exists_wholeNumeral (m + 1) (by omega)
    have htext : utf8 (toString (Int.negSucc m)).toList = 0x2d :: numeral.bytes := by
      rw [← hbytes, show toString (Int.negSucc m) = "-" ++ Nat.repr (m + 1) from rfl, Nat.repr,
        String.toList_append, utf8_append, @String.toList_ofList (Nat.toDigits 10 (m + 1))]
      rfl
    have hread := valueOver_number 0 none hn true rest
    have hrange : ¬twoTo 63 < m + 1 := by omega
    rw [htext]
    refine hread.trans ((number_bytes hn (hrest.endsBefore numeral) true).2 ⟨?_, rfl⟩)
    rw [hvalue, wholeNumber]
    simp only [Bool.not_true, Bool.false_eq_true, if_false, Nat.add_one_ne_zero, hrange,
      decide_false, Bool.or_self]
    rfl

end RecordCheck.Json
