import RecordCheck.Decimal.Basic
set_option autoImplicit false

/-!
# Decimal: written decimals

A positive decimal is written positionally, or as a mantissa with one digit before the point and a
power of ten.  The two builders here take the digits as they are; when each is used, and with which
marks, is for the format that writes the number.
-/

namespace RecordCheck.Decimal

/-- The digits with the point in its place.  `whole` ends a number without a fraction. -/
def positional (whole : String) (d : Decimal) : String :=
  let digits := d.digits
  match d.leadingPower with
  | .ofNat power =>
    if digits.length ≤ power + 1 then
      String.ofList (digits ++ List.replicate (power + 1 - digits.length) '0') ++ whole
    else
      String.ofList (digits.take (power + 1)) ++ "." ++ String.ofList (digits.drop (power + 1))
  | .negSucc zeros => "0." ++ String.ofList (List.replicate zeros '0' ++ digits)

/-- The magnitude `significand * 2 ^ exponent` is at least `10 ^ -4` and below `10 ^ 16`. -/
def isMiddling (significand : Nat) (exponent : Int) : Bool :=
  let num := significand * twoTo exponent.toNat
  let den := twoTo (-exponent).toNat
  den ≤ num * tenTo 4 && num < tenTo 16 * den

/-- How the power of ten of a number is written. -/
structure ExponentStyle where
  /-- the sign of a power that is not negative -/
  plus : String
  /-- the least number of digits -/
  width : Nat
  deriving DecidableEq, Repr, Inhabited

/-- A power of ten. -/
def ExponentStyle.write (style : ExponentStyle) (power : Int) : String :=
  let digits := Nat.toDigits 10 power.natAbs
  let padded := String.ofList (List.replicate (style.width - digits.length) '0' ++ digits)
  if power < 0 then "e-" ++ padded else "e" ++ style.plus ++ padded

/-- One digit, the others after a point, and the power of ten. -/
def scientific (style : ExponentStyle) (d : Decimal) : String :=
  let mantissa := match d.digits with
    | [] => ""
    | [first] => first.toString
    | first :: others => first.toString ++ "." ++ String.ofList others
  mantissa ++ style.write d.leadingPower

end RecordCheck.Decimal
