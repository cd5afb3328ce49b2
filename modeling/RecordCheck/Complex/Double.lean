import RecordCheck.Decimal.Basic
set_option autoImplicit false

/-!
# Complex: doubles and their texts

The texts that name a double:

    double = [sign] (number | "nan" | "inf" | "infinity")
    number = (digits ["." [digits]] | "." digits) [power]
    power  = "e" [sign] digits

Letters match in either case and digits are those of ASCII.  The double is the one nearest to the
number, with the sign.
-/

namespace RecordCheck.Complex

/-- An unsigned number as it is spelled. -/
inductive Magnitude where
  | decimal (value : Decimal)
  | infinite
  | nan
  deriving DecidableEq, Repr, Inhabited

/-- The word of the double that a sign and a magnitude name. -/
def Magnitude.toBits (negative : Bool) : Magnitude → UInt64
  | .decimal value => (value.toFloat negative).toBits
  | .infinite => Binary64.signedBits negative Binary64.infinityBits
  | .nan => Binary64.signedBits negative Binary64.notNumberBits

/-- The value of a decimal digit. -/
def digitValue? (c : Char) : Option Nat :=
  if '0' ≤ c ∧ c ≤ '9' then some (c.toNat - '0'.toNat) else none

/-- The number that digits write. -/
def ofDigits (ds : List Nat) : Nat := ds.foldl (fun n d => 10 * n + d) 0

/-- A sign, if there is one: whether it is a minus, and the rest. -/
def readSign : List Char → Option Bool × List Char
  | '+' :: rest => (some false, rest)
  | '-' :: rest => (some true, rest)
  | text => (none, text)

/-- The decimal of the digits before and after the point, and of a power of ten. -/
def decimalOf (whole fraction : List Nat) (power : Int) : Magnitude :=
  .decimal ⟨ofDigits (whole ++ fraction), power - fraction.length⟩

/-- The digits at the start of a text, and the rest. -/
def spanDigits : List Char → List Nat × List Char
  | [] => ([], [])
  | c :: rest =>
    match digitValue? c with
    | some d => let (ds, left) := spanDigits rest; (d :: ds, left)
    | none => ([], c :: rest)

/-- The power of ten that a text writes; no text stands for none. -/
def powerOfText? : List Char → Option Int
  | [] => some 0
  | c :: rest =>
    if c = 'e' ∨ c = 'E' then
      let (sign, unsigned) := readSign rest
      let (ds, left) := spanDigits unsigned
      if ds.isEmpty || !left.isEmpty then none
      else some (if sign = some true then -(ofDigits ds : Int) else (ofDigits ds : Int))
    else none

/-- The digits behind a point, if the text begins with one, and the rest. -/
def readFraction : List Char → List Nat × List Char
  | '.' :: rest => spanDigits rest
  | text => ([], text)

/-- The magnitude that a text writes with digits. -/
def numberOfText? (text : List Char) : Option Magnitude :=
  let (whole, behind) := spanDigits text
  let (fraction, rest) := readFraction behind
  if whole.isEmpty && fraction.isEmpty then none
  else (powerOfText? rest).map (decimalOf whole fraction)

/-- The magnitude that a text names. -/
def magnitudeOfText? (text : List Char) : Option Magnitude :=
  let small := text.map Char.toLower
  if small = ['n', 'a', 'n'] then some .nan
  else if small = ['i', 'n', 'f'] ∨ small = ['i', 'n', 'f', 'i', 'n', 'i', 't', 'y'] then
    some .infinite
  else numberOfText? text

/-- The word of the double that a text names. -/
def bitsOfText? (text : List Char) : Option UInt64 :=
  let (sign, unsigned) := readSign text
  (magnitudeOfText? unsigned).map (Magnitude.toBits (sign == some true))

end RecordCheck.Complex
