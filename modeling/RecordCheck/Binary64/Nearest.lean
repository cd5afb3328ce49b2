import RecordCheck.Binary64.Datum
set_option autoImplicit false

/-!
# Binary64: the nearest double

A fraction is rounded to the nearest double, and to the one with the even significand when two are
equally near.  The rounding is exact: it works on natural numbers throughout.
-/

namespace RecordCheck.Binary64

/-- The integer nearest to `num / den`; of two, the even one. -/
def roundHalfEven (num den : Nat) : Nat :=
  let low := num / den
  let twice := 2 * (num % den)
  if twice < den then low
  else if den < twice then low + 1
  else if low % 2 = 0 then low
  else low + 1

/-- The word of the double nearest to `num / den`, or of the infinity from half a unit above the
largest double.  The fraction is counted in units of `2 ^ -1074`; below `2 ^ 53` such units the
word is the count itself, and each further bit doubles the unit and adds a binade to the word. -/
def nearestBits (num den : Nat) : Nat :=
  let units := num * twoTo 1074
  let power := Nat.log2 (units / den) - 52
  min infinityBits (power * binade + roundHalfEven units (den * twoTo power))

/-- The double nearest to `num / den`, with a sign. -/
def nearest (negative : Bool) (num den : Nat) : Float :=
  withSign negative (nearestBits num den)

/-- The double nearest to an integer. -/
def ofInt (n : Int) : Float := nearest (decide (n < 0)) n.natAbs 1

end RecordCheck.Binary64
