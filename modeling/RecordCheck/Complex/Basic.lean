import RecordCheck.Decimal.Shortest
import RecordCheck.Decimal.Layout
set_option autoImplicit false

/-!
# Complex: complex numbers and their text

A complex number is a pair of words, so that what is not a number keeps its sign bit and its
payload.  It is written `(1+2j)`, or `2j` when its real part is the zero without sign.  Each part is
written with the fewest digits that read back: positionally from `10 ^ -4` up to, and
without, `10 ^ 16`, otherwise with a signed power of ten of two digits or more.
-/

namespace RecordCheck

/-- A complex number: the words of the doubles that are its parts. -/
structure Complex where
  re : UInt64
  im : UInt64
  deriving DecidableEq, Repr, Inhabited

namespace Complex

/-- Powers of ten in a part: `e+16`, `e-05`. -/
def exponentStyle : Decimal.ExponentStyle := ⟨"+", 2⟩

/-- The text of a finite magnitude.  Of two equally short and near decimals the larger is taken. -/
def magnitudeText (significand : Nat) (exponent : Int) : String :=
  if significand = 0 then "0"
  else
    let decimal := Decimal.shortest .up significand exponent
    if Decimal.isMiddling significand exponent then decimal.positional ""
    else decimal.scientific exponentStyle

/-- The text of one part. -/
def partText (bits : UInt64) : String :=
  match Binary64.Datum.ofBits bits with
  | .nan => "nan"
  | .infinite negative => if negative then "-inf" else "inf"
  | .finite negative significand exponent =>
    let text := magnitudeText significand exponent
    if negative then "-" ++ text else text

/-- The word has its sign bit set and stands for a number, infinite or not. -/
def hasMinus (bits : UInt64) : Bool := Binary64.signBit bits && !Binary64.isNotNumber bits

/-- The word is that of the zero without sign. -/
def isPlainZero (bits : UInt64) : Bool := bits == 0

/-- The word without its sign bit. -/
def magnitudeBits (bits : UInt64) : UInt64 := UInt64.ofNat (bits.toNat % twoTo 63)

/-- The text of a complex number. -/
def text (c : Complex) : String :=
  if isPlainZero c.re then partText c.im ++ "j"
  else
    let sign := if hasMinus c.im then "-" else "+"
    "(" ++ partText c.re ++ sign ++ partText (magnitudeBits c.im) ++ "j)"

end Complex
end RecordCheck
