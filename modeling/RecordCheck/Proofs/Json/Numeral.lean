import Mathlib
import RecordCheck.Json.Reader
set_option autoImplicit false

/-!
# JSON: the grammar of numbers

A numeral has digits, a fraction and a power, and its value is what reading takes it for.  Main
statements: the reader takes the value of a numeral in front of anything that does not continue it
(`number_numeral`), and whatever it takes for a number is a numeral (`exists_numeral`).
-/

namespace RecordCheck.Json

/-! ## Digits -/

/-- The byte of a digit. -/
def digitByte (d : Fin 10) : UInt8 := UInt8.ofNat (0x30 + d.val)

@[simp] theorem isDigit_digitByte (d : Fin 10) : isDigit (digitByte d) = true := by
  revert d; decide

@[simp] theorem digitValue_digitByte (d : Fin 10) : digitValue (digitByte d) = d.val := by
  revert d; decide

theorem exists_digitByte {b : UInt8} (h : isDigit b = true) : ∃ d, digitByte d = b := by
  have hrange : 0x30 ≤ b.toNat ∧ b.toNat ≤ 0x39 := by
    simpa [isDigit, UInt8.le_iff_toNat_le] using h
  refine ⟨⟨b.toNat - 0x30, by omega⟩, ?_⟩
  apply UInt8.toNat_inj.1
  have hbyte : 0x30 + (b.toNat - 0x30) < UInt8.size := by
    have : UInt8.size = 256 := rfl
    omega
  rw [digitByte, UInt8.toNat_ofNat_of_lt' hbyte]
  omega

theorem eq_zero_of_digitByte {d : Fin 10} (h : digitByte d = 0x30) : d = 0 := by
  revert d; decide

/-- The bytes of digits. -/
def digitBytes (ds : List (Fin 10)) : Bytes := ds.map digitByte

@[simp] theorem digitBytes_cons (d : Fin 10) (ds : List (Fin 10)) :
    digitBytes (d :: ds) = digitByte d :: digitBytes ds := rfl

/-- The bytes do not begin with a digit. -/
def NoDigit (bytes : Bytes) : Prop := ∀ b ∈ bytes.head?, isDigit b = false

theorem digits_digitBytes (ds : List (Fin 10)) {rest : Bytes} (h : NoDigit rest) :
    digits (digitBytes ds ++ rest) = (ds.map Fin.val, rest) := by
  have hall : ∀ b ∈ digitBytes ds, isDigit b = true := by
    intro b hb
    obtain ⟨d, -, rfl⟩ := List.mem_map.1 hb
    exact isDigit_digitByte d
  have hstop : rest.takeWhile isDigit = [] ∧ rest.dropWhile isDigit = rest := by
    cases rest with
    | nil => exact ⟨rfl, rfl⟩
    | cons b rest => simp [h b rfl]
  rw [digits, List.takeWhile_append_of_pos hall, List.dropWhile_append_of_pos hall, hstop.1,
    hstop.2, List.append_nil]
  congr 1
  rw [digitBytes, List.map_map]
  exact List.map_congr_left fun d _ => digitValue_digitByte d

/-- Bytes are digits and others that do not begin with one. -/
theorem exists_digitBytes (bytes : Bytes) :
    ∃ ds rest, bytes = digitBytes ds ++ rest ∧ NoDigit rest := by
  induction bytes with
  | nil => exact ⟨[], [], rfl, nofun⟩
  | cons b bytes ih =>
    cases hb : isDigit b with
    | false =>
      refine ⟨[], b :: bytes, rfl, ?_⟩
      intro b' hb'
      obtain rfl := Option.some.inj hb'
      exact hb
    | true =>
      obtain ⟨d, rfl⟩ := exists_digitByte hb
      obtain ⟨ds, rest, rfl, hrest⟩ := ih
      exact ⟨d :: ds, rest, rfl, hrest⟩

/-! ## Numerals -/

/-- A power of ten: its letter, its sign (with a minus or not) and its digits. -/
structure Power where
  capital : Bool
  sign : Option Bool
  digits : List (Fin 10)

/-- A number without its minus: the digits before the point, those behind it, of which there are
none if there is no point, and the power. -/
structure Numeral where
  whole : List (Fin 10)
  fraction : List (Fin 10)
  power : Option Power

namespace Power

/-- The bytes of a sign. -/
def signBytes : Option Bool → Bytes
  | none => []
  | some false => [0x2b]
  | some true => [0x2d]

/-- The power is negative. -/
def down (p : Power) : Bool := p.sign = some true

/-- The letter of the power. -/
def letter (p : Power) : UInt8 := if p.capital then 0x45 else 0x65

/-- The bytes behind the letter. -/
def bytes (p : Power) : Bytes := signBytes p.sign ++ digitBytes p.digits

/-- The number that a significand and a power make, if it is not too large. -/
def value? (p : Power) (negative : Bool) (significand : Nat) (start : Int) : Option Json :=
  match takeDigits powerLimit 0 (p.digits.map Fin.val) with
  | (n, 0) => (scaled? significand (if p.down then start - n else start + n)).map (signed negative)
  | (_, _ + 1) => if significand = 0 || p.down then some (signed negative 0) else none

end Power

namespace Numeral

/-- The bytes of a power that may be missing. -/
def powerBytes : Option Power → Bytes
  | none => []
  | some p => p.letter :: p.bytes

/-- The bytes of a fraction. -/
def fractionBytes : List (Fin 10) → Bytes
  | [] => []
  | d :: ds => 0x2e :: digitBytes (d :: ds)

/-- The bytes of a numeral. -/
def bytes (n : Numeral) : Bytes :=
  digitBytes n.whole ++ (fractionBytes n.fraction ++ powerBytes n.power)

/-- There are digits where there have to be, and a zero does not lead others. -/
structure WellFormed (n : Numeral) : Prop where
  whole : n.whole ≠ []
  leading : n.whole.head? = some 0 → n.whole = [0]
  power : ∀ p ∈ n.power, p.digits ≠ []

/-- The number of a significand with a power of ten that may be missing. -/
def scaledValue? (power : Option Power) (negative : Bool) (significand : Nat) (start : Int) :
    Option Json :=
  match power with
  | none => (scaled? significand start).map (signed negative)
  | some p => p.value? negative significand start

/-- The number of a significand that digits behind the point continue. -/
def fractionValue? (power : Option Power) (negative : Bool) (significand : Nat) (start : Int)
    (behind : List (Fin 10)) : Option Json :=
  let (significand', leftOver) := takeDigits significandLimit significand (behind.map Fin.val)
  scaledValue? power negative significand' (start - (behind.length - leftOver : Nat))

/-- The number that a numeral stands for, if it is not too large. -/
def value? (n : Numeral) (negative : Bool) : Option Json :=
  let (significand, leftOver) := takeDigits significandLimit 0 (n.whole.map Fin.val)
  match n.fraction with
  | [] =>
    if n.power.isNone && leftOver = 0 then some (wholeNumber negative significand)
    else scaledValue? n.power negative significand leftOver
  | d :: ds => fractionValue? n.power negative significand leftOver (d :: ds)

end Numeral

/-! ## Reading numerals -/

/-- A number is not continued by the bytes. -/
def Ends (bytes : Bytes) : Prop :=
  ∀ b ∈ bytes.head?, isDigit b = false ∧ b ≠ 0x2e ∧ beginsPower b = false

theorem ends_nil : Ends [] := nofun

theorem Ends.noDigit {bytes : Bytes} (h : Ends bytes) : NoDigit bytes := fun b hb => (h b hb).1

theorem scaledNumber_eq (negative : Bool) (significand : Nat) (power : Int) (rest : Bytes)
    {x : Json} {rest' : Bytes} : scaledNumber negative significand power rest = .ok (x, rest') ↔
      (scaled? significand power).map (signed negative) = some x ∧ rest = rest' := by
  unfold scaledNumber
  cases scaled? significand power with
  | none => exact iff_of_false nofun fun h => nomatch h.1
  | some y => simp

theorem isDigit_sign {b : UInt8} (h : isDigit b = true) : b ≠ 0x2b ∧ b ≠ 0x2d := by
  constructor
  all_goals
    rintro rfl
    exact absurd h (by decide)

theorem power_bytes {p : Power} (hp : p.digits ≠ []) {rest : Bytes} (hrest : NoDigit rest)
    (negative : Bool) (significand : Nat) (start : Int) {x : Json} {rest' : Bytes} :
    power negative significand start (p.bytes ++ rest) = .ok (x, rest') ↔
      p.value? negative significand start = some x ∧ rest = rest' := by
  obtain ⟨capital, sign, ds⟩ := p
  obtain ⟨d, ds, rfl⟩ := List.exists_cons_of_ne_nil hp
  have hdigits := digits_digitBytes (d :: ds) hrest
  have hsign := isDigit_sign (isDigit_digitByte d)
  unfold power Power.value? Power.bytes
  rcases sign with _ | _ | _
  all_goals
    simp only [Power.signBytes, Power.down, List.nil_append, List.cons_append, digitBytes_cons,
      hsign.1, hsign.2, if_true, if_false, isDigit_digitByte, reduceCtorEq, decide_false,
      decide_true, Bool.false_eq_true, Option.some.injEq, Bool.or_false, Bool.or_true,
      show (0x2d : UInt8) ≠ 0x2b by decide]
    rw [digitBytes_cons, List.cons_append] at hdigits
    rw [hdigits]
    simp only
    generalize takeDigits powerLimit 0 _ = taken
    obtain ⟨n, _ | leftOver⟩ := taken
    · exact scaledNumber_eq ..
    · by_cases hzero : significand = 0 <;> simp [hzero]

/-- A power does not begin with the bytes. -/
def NoPower (bytes : Bytes) : Prop := ∀ b ∈ bytes.head?, beginsPower b = false

theorem beginsPower_letter (p : Power) : beginsPower p.letter = true ∧ isDigit p.letter = false ∧
    p.letter ≠ 0x2e := by
  unfold Power.letter
  split_ifs <;> decide

theorem noDigit_powerBytes {power : Option Power} {rest : Bytes} (hrest : NoDigit rest) :
    NoDigit (Numeral.powerBytes power ++ rest) := by
  cases power with
  | none => exact hrest
  | some p =>
    intro b hb
    obtain rfl := Option.some.inj hb
    exact (beginsPower_letter p).2.1

/-- Behind the digits of a numeral stands a power, or none and the numeral ends. -/
theorem fraction_bytes {power : Option Power} (hpower : ∀ p ∈ power, p.digits ≠ []) {rest : Bytes}
    (hrest : NoDigit rest) (hnone : power = none → NoPower rest) (negative : Bool)
    (significand : Nat) (start : Int) (d : Fin 10) (ds : List (Fin 10)) {x : Json} {rest' : Bytes} :
    fraction negative significand start
        (digitBytes (d :: ds) ++ (Numeral.powerBytes power ++ rest)) = .ok (x, rest') ↔
      Numeral.fractionValue? power negative significand start (d :: ds) = some x ∧
        rest = rest' := by
  unfold fraction Numeral.fractionValue?
  rw [digits_digitBytes (d :: ds) (noDigit_powerBytes hrest)]
  simp only [List.map_cons, List.length_cons, List.length_map]
  generalize takeDigits significandLimit significand _ = taken
  cases power with
  | none =>
    rw [Numeral.powerBytes, List.nil_append]
    cases rest with
    | nil => exact scaledNumber_eq ..
    | cons b rest =>
      simp only [hnone rfl b rfl, Bool.false_eq_true, if_false]
      exact scaledNumber_eq ..
  | some p =>
    simp only [Numeral.powerBytes, List.cons_append, (beginsPower_letter p).1, if_true]
    exact power_bytes (hpower p rfl) hrest ..

/-- Nothing continues the numeral in front of the bytes. -/
structure Numeral.EndsBefore (n : Numeral) (rest : Bytes) : Prop where
  digit : NoDigit rest
  power : n.power = none → NoPower rest
  point : n.power = none → n.fraction = [] → rest.head? ≠ some 0x2e

theorem Ends.endsBefore {rest : Bytes} (h : Ends rest) (n : Numeral) : n.EndsBefore rest :=
  ⟨h.noDigit, fun _ b hb => (h b hb).2.2, fun _ _ hpoint => (h _ hpoint).2.1 rfl⟩

theorem noDigit_fractionBytes (fraction : List (Fin 10)) {rest : Bytes} (hrest : NoDigit rest) :
    NoDigit (Numeral.fractionBytes fraction ++ rest) := by
  cases fraction with
  | nil => exact hrest
  | cons d ds =>
    intro b hb
    obtain rfl := Option.some.inj hb
    decide

/-- How a number is read whose digits are known. -/
theorem number_eq {d : Fin 10} {ds : List (Fin 10)} {behind : Bytes} (hleading : d = 0 → ds = [])
    (negative : Bool) : NoDigit behind →
    number negative (digitBytes (d :: ds) ++ behind) =
      let (significand, leftOver) := takeDigits significandLimit 0 ((d :: ds).map Fin.val)
      let plain := if leftOver = 0 then .ok (wholeNumber negative significand, behind)
        else scaledNumber negative significand leftOver behind
      match behind with
      | b :: more =>
        if b = 0x2e then fraction negative significand leftOver more
        else if beginsPower b then power negative significand leftOver more
        else plain
      | [] => plain := by
  intro hbehind
  have hdigits := digits_digitBytes (d :: ds) hbehind
  have halone : ¬(decide (digitByte d = 0x30) &&
      (digitBytes ds ++ behind).head?.any isDigit) = true := by
    rw [Bool.and_eq_true, decide_eq_true_eq]
    rintro ⟨hzero, hnext⟩
    obtain rfl := hleading (eq_zero_of_digitByte hzero)
    obtain ⟨b, hb, hb'⟩ := (Option.any_eq_true _ _).1 hnext
    exact absurd hb' (by simp [hbehind b hb])
  rw [digitBytes_cons, List.cons_append] at hdigits ⊢
  cases behind <;>
    simp only [number, isDigit_digitByte, Bool.not_true, Bool.false_eq_true, if_false, halone,
      hdigits]

/-- The reader takes a numeral for its value. -/
theorem number_bytes {n : Numeral} (hn : n.WellFormed) {rest : Bytes} (hrest : n.EndsBefore rest)
    (negative : Bool) {x : Json} {rest' : Bytes} :
    number negative (n.bytes ++ rest) = .ok (x, rest') ↔
      n.value? negative = some x ∧ rest = rest' := by
  obtain ⟨whole, frac, power⟩ := n
  obtain ⟨hdigit, hpower, hpoint⟩ := hrest
  obtain ⟨d, ds, rfl⟩ := List.exists_cons_of_ne_nil hn.whole
  have hleading : d = 0 → ds = [] := fun hd => (List.cons.inj (hn.leading (congrArg some hd))).2
  have hbehind := noDigit_fractionBytes frac (@noDigit_powerBytes power rest hdigit)
  rw [Numeral.bytes, List.append_assoc, List.append_assoc, number_eq hleading _ hbehind,
    Numeral.value?]
  simp only [List.map_cons]
  generalize takeDigits significandLimit 0 _ = taken
  obtain ⟨significand, leftOver⟩ := taken
  cases frac with
  | cons d' ds' =>
    simp only [Numeral.fractionBytes, List.cons_append, if_true]
    exact fraction_bytes hn.power hdigit hpower ..
  | nil =>
    cases power with
    | some p =>
      have hletter := beginsPower_letter p
      simp only [Numeral.fractionBytes, Numeral.powerBytes, List.nil_append, List.cons_append,
        hletter.1, hletter.2.2, if_true, if_false, Option.isNone_some, Bool.false_and,
        Bool.false_eq_true]
      exact power_bytes (hn.power p rfl) hdigit ..
    | none =>
      have hplain : (if leftOver = 0 then Except.ok (wholeNumber negative significand, rest)
          else scaledNumber negative significand leftOver rest) = .ok (x, rest') ↔
            (if leftOver = 0 then some (wholeNumber negative significand)
              else (scaled? significand leftOver).map (signed negative)) = some x ∧
                rest = rest' := by
        split_ifs
        · simp
        · exact scaledNumber_eq ..
      cases rest with
      | nil => simpa [Numeral.fractionBytes, Numeral.powerBytes, Numeral.scaledValue?] using hplain
      | cons b rest =>
        have hb : b ≠ 0x2e := fun h => hpoint rfl rfl (congrArg some h)
        simpa [Numeral.fractionBytes, Numeral.powerBytes, Numeral.scaledValue?, hb,
          hpower rfl b rfl] using hplain

/-! ## What is read is a numeral -/

/-- Bytes begin with a sign or with none. -/
theorem exists_sign (bytes : Bytes) : ∃ sign behind, bytes = Power.signBytes sign ++ behind ∧
    (sign = none → ∀ b ∈ behind.head?, b ≠ 0x2b ∧ b ≠ 0x2d) := by
  cases bytes with
  | nil => exact ⟨none, [], rfl, fun _ => nofun⟩
  | cons b bytes =>
    by_cases hplus : b = 0x2b
    · exact ⟨some false, bytes, by rw [hplus]; rfl, nofun⟩
    by_cases hminus : b = 0x2d
    · exact ⟨some true, bytes, by rw [hminus]; rfl, nofun⟩
    · refine ⟨none, b :: bytes, rfl, fun _ b' hb' => ?_⟩
      obtain rfl := Option.some.inj hb'
      exact ⟨hplus, hminus⟩

/-- Behind the letter of a power that is read stand the bytes of a power. -/
theorem exists_power {negative : Bool} {significand : Nat} {start : Int} {bytes : Bytes}
    {result : Json × Bytes} (h : power negative significand start bytes = .ok result)
    (capital : Bool) : ∃ p : Power, p.capital = capital ∧ p.digits ≠ [] ∧
      ∃ rest, bytes = p.bytes ++ rest ∧ NoDigit rest := by
  obtain ⟨sign, behind, rfl, hsign⟩ := exists_sign bytes
  have hbehind : ∃ b ∈ behind.head?, isDigit b = true := by
    unfold power at h
    cases behind with
    | nil => rcases sign with _ | _ | _ <;> exact nomatch h
    | cons b others =>
      refine ⟨b, rfl, ?_⟩
      by_contra hb
      rcases sign with _ | _ | _
      · have hb' := hsign rfl b rfl
        simp [Power.signBytes, hb, hb'.1, hb'.2] at h
      · simp [Power.signBytes, hb] at h
      · simp [Power.signBytes, hb] at h
  obtain ⟨ds, rest, rfl, hrest⟩ := exists_digitBytes behind
  refine ⟨⟨capital, sign, ds⟩, rfl, ?_, rest, (List.append_assoc ..).symm, hrest⟩
  rintro rfl
  obtain ⟨b, hb, hb'⟩ := hbehind
  exact absurd hb' (by simp [hrest b hb])

/-- Bytes behind digits begin with a power that is read, or do not begin with one. -/
theorem exists_powerBytes {negative : Bool} {significand : Nat} {start : Int} {bytes : Bytes}
    (hdigit : NoDigit bytes)
    (h : ∀ b behind, bytes = b :: behind → beginsPower b = true →
      ∃ result, power negative significand start behind = .ok result) :
    ∃ p rest, bytes = Numeral.powerBytes p ++ rest ∧ (∀ q ∈ p, q.digits ≠ []) ∧ NoDigit rest ∧
      (p = none → NoPower rest ∧ bytes = rest) := by
  cases bytes with
  | nil => exact ⟨none, [], rfl, nofun, nofun, fun _ => ⟨nofun, rfl⟩⟩
  | cons b behind =>
    cases hb : beginsPower b with
    | false =>
      refine ⟨none, b :: behind, rfl, nofun, hdigit, fun _ => ⟨fun b' hb' => ?_, rfl⟩⟩
      obtain rfl := Option.some.inj hb'
      exact hb
    | true =>
      obtain ⟨result, hresult⟩ := h b behind rfl hb
      obtain ⟨p, hcapital, hdigits, rest, rfl, hrest⟩ := exists_power hresult (b = 0x45)
      refine ⟨some p, rest, ?_, ?_, hrest, nofun⟩
      · have hletter : p.letter = b := by
          rw [Power.letter, hcapital]
          rcases Bool.or_eq_true _ _ ▸ hb with h | h <;> simp_all
        rw [Numeral.powerBytes, hletter, List.cons_append]
      · intro q hq
        obtain rfl := Option.some.inj hq
        exact hdigits

/-- Behind the point of a number that is read stand digits and perhaps a power. -/
theorem exists_fractionBytes {negative : Bool} {significand : Nat} {start : Int} {bytes : Bytes}
    {result : Json × Bytes} (h : fraction negative significand start bytes = .ok result) :
    ∃ d ds p rest, bytes = digitBytes (d :: ds) ++ (Numeral.powerBytes p ++ rest) ∧
      (∀ q ∈ p, q.digits ≠ []) ∧ NoDigit rest ∧ (p = none → NoPower rest) := by
  obtain ⟨ds, behind, rfl, hbehind⟩ := exists_digitBytes bytes
  unfold fraction at h
  rw [digits_digitBytes ds hbehind] at h
  cases ds with
  | nil => cases behind <;> exact nomatch h
  | cons d ds =>
    simp only [List.map_cons] at h
    generalize takeDigits significandLimit significand _ = taken at h
    obtain ⟨p, rest, rfl, hdigits, hrest, hnone⟩ :=
        exists_powerBytes hbehind fun b more heq hb => by
      subst heq
      simp only [hb, if_true] at h
      exact ⟨_, h⟩
    exact ⟨d, ds, p, rest, rfl, hdigits, hrest, fun hp => (hnone hp).1⟩

/-- A number that is read begins with digits, and a zero does not lead others. -/
theorem exists_wholeBytes {negative : Bool} {bytes : Bytes} {result : Json × Bytes}
    (h : number negative bytes = .ok result) : ∃ d ds behind,
      bytes = digitBytes (d :: ds) ++ behind ∧ (d = 0 → ds = []) ∧ NoDigit behind := by
  obtain ⟨ds, behind, rfl, hbehind⟩ := exists_digitBytes bytes
  unfold number at h
  cases ds with
  | nil =>
    rw [show digitBytes [] ++ behind = behind from rfl] at h
    cases behind with
    | nil => cases h
    | cons b behind =>
      simp only [hbehind b rfl, Bool.not_false, if_true] at h
      cases h
  | cons d ds =>
    refine ⟨d, ds, behind, rfl, ?_, hbehind⟩
    rintro rfl
    cases ds with
    | nil => rfl
    | cons d' ds =>
      rw [digitBytes_cons, digitBytes_cons, List.cons_append, List.cons_append] at h
      have hnext : (decide (digitByte 0 = 0x30) && Option.any isDigit
          (digitByte d' :: (digitBytes ds ++ behind)).head?) = true := by
        simp [show digitByte 0 = 0x30 from rfl]
      simp only [isDigit_digitByte, Bool.not_true, Bool.false_eq_true, if_false, hnext,
        if_true] at h
      cases h

/-- What is read as a number is a numeral, taken for its value. -/
theorem exists_numeral {negative : Bool} {bytes rest : Bytes} {x : Json}
    (h : number negative bytes = .ok (x, rest)) : ∃ n : Numeral, n.WellFormed ∧
      bytes = n.bytes ++ rest ∧ n.EndsBefore rest ∧ n.value? negative = some x := by
  suffices hsplit : ∃ n : Numeral, n.WellFormed ∧ ∃ behind, bytes = n.bytes ++ behind ∧
      n.EndsBefore behind by
    obtain ⟨n, hn, behind, rfl, hends⟩ := hsplit
    obtain ⟨hvalue, rfl⟩ := (number_bytes hn hends negative).1 h
    exact ⟨n, hn, rfl, hends, hvalue⟩
  obtain ⟨d, others, behind, rfl, hleading, hbehind⟩ := exists_wholeBytes h
  have hread := h
  rw [number_eq hleading _ hbehind] at hread
  simp only [List.map_cons] at hread
  generalize takeDigits significandLimit 0 _ = taken at hread
  have hhead : (d :: others).head? = some 0 → d :: others = [0] := fun h0 => by
    obtain rfl := Option.some.inj h0
    rw [hleading rfl]
  by_cases hpoint : ∃ more, behind = 0x2e :: more
  · obtain ⟨more, rfl⟩ := hpoint
    simp only [if_true] at hread
    obtain ⟨d', ds', p, rest, rfl, hdigits, hrest, hnone⟩ := exists_fractionBytes hread
    exact ⟨⟨d :: others, d' :: ds', p⟩, ⟨List.cons_ne_nil _ _, hhead, hdigits⟩, rest,
      by simp [Numeral.bytes, Numeral.fractionBytes],
      ⟨hrest, hnone, fun _ h => nomatch h⟩⟩
  · obtain ⟨p, rest, rfl, hdigits, hrest, hnone⟩ := exists_powerBytes hbehind
      fun b more heq hb => by
        subst heq
        have hb' : b ≠ 0x2e := fun h => hpoint ⟨more, by rw [h]⟩
        simp only [hb', hb, if_true, if_false] at hread
        exact ⟨_, hread⟩
    refine ⟨⟨d :: others, [], p⟩, ⟨List.cons_ne_nil _ _, hhead, hdigits⟩, rest,
      by simp [Numeral.bytes, Numeral.fractionBytes],
      ⟨hrest, fun hp => (hnone hp).1, fun hp _ hdot => hpoint ?_⟩⟩
    rw [(hnone hp).2]
    cases rest with
    | nil => exact nomatch hdot
    | cons b rest => exact ⟨rest, by rw [Option.some.inj hdot]⟩

end RecordCheck.Json
