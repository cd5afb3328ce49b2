import RecordCheck.Binary64.Nearest
set_option autoImplicit false

/-!
# Decimal: decimals and the doubles nearest to them

A decimal is an integer coefficient and a power of ten.
-/

namespace RecordCheck

/-- The magnitude `coefficient * 10 ^ exponent`. -/
structure Decimal where
  coefficient : Nat
  exponent : Int
  deriving DecidableEq, Repr, Inhabited

namespace Decimal

/-- The number of decimal digits of `n`: the least `j` with `n < 10 ^ j`. -/
def digitCount (n : Nat) : Nat :=
  if n = 0 then 0 else digitCount (n / 10) + 1
  termination_by n
  decreasing_by omega

/-- The coefficient's digits, the most significant first. -/
def digits (d : Decimal) : List Char := Nat.toDigits 10 d.coefficient

/-- The power of ten that the first digit stands for. -/
def leadingPower (d : Decimal) : Int := d.exponent + d.digits.length - 1

/-- The double nearest to a decimal, with a sign.  Powers far outside the range of the doubles are
settled before any large number is built: `10 ^ 309` is above all of them, and `10 ^ -324` is below
half of the least one. -/
def toFloat (negative : Bool) (d : Decimal) : Float :=
  let width : Int := digitCount d.coefficient
  if d.coefficient = 0 then Binary64.zero negative
  else if 310 < width + d.exponent then Binary64.infinity negative
  else if width + d.exponent < -330 then Binary64.zero negative
  else if 0 ≤ d.exponent then
    Binary64.nearest negative (d.coefficient * tenTo d.exponent.toNat) 1
  else Binary64.nearest negative d.coefficient (tenTo (-d.exponent).toNat)

/-- The same magnitude with no zero at the end of the coefficient. -/
def stripped (d : Decimal) : Decimal :=
  if h : d.coefficient = 0 then d
  else if d.coefficient % 10 = 0 then stripped ⟨d.coefficient / 10, d.exponent + 1⟩
  else d
  termination_by d.coefficient
  decreasing_by omega

end Decimal
end RecordCheck
