import RecordCheck.Decimal.Basic
set_option autoImplicit false

/-!
# Decimal: the fewest digits that read back

The reals that round to a finite double form an interval around it, ends included when its
significand is even.  The shortest decimal of the double is the decimal of fewest digits in that
interval, and of those the nearest to the double.  On a given decimal grid a point of the interval
exists only if one of the two grid neighbours of the double is one, so these are all that is tested.
-/

namespace RecordCheck.Decimal

/-- Which of two equally near decimals of the same length is taken. -/
inductive Tie where
  /-- the one whose last digit is even -/
  | even
  /-- the larger one -/
  | up
  deriving DecidableEq, Repr, Inhabited

/-- The reals that round to a positive double, as fractions over one denominator. -/
structure Interval where
  low : Nat
  value : Nat
  high : Nat
  den : Nat
  closed : Bool
  deriving DecidableEq, Repr, Inhabited

/-- The interval of the double `significand * 2 ^ exponent`, in quarters of its unit: half a unit
to each side, and below a power of two, where the doubles lie twice as close, a quarter. -/
def Interval.ofDouble (significand : Nat) (exponent : Int) : Interval :=
  let gap := if significand = Binary64.binade ∧ -1074 < exponent then 1 else 2
  let unit := if 2 ≤ exponent then twoTo (exponent - 2).toNat else 1
  let den := if 2 ≤ exponent then 1 else twoTo (2 - exponent).toNat
  { low := (4 * significand - gap) * unit
    value := 4 * significand * unit
    high := (4 * significand + 2) * unit
    den := den
    closed := significand % 2 = 0 }

/-- The interval counted in units of `10 ^ power`. -/
def Interval.inUnits (i : Interval) (power : Int) : Interval :=
  if 0 ≤ power then { i with den := i.den * tenTo power.toNat }
  else
    let scale := tenTo (-power).toNat
    { i with low := i.low * scale, value := i.value * scale, high := i.high * scale }

/-- The integer `n` lies in the interval. -/
def Interval.contains (i : Interval) (n : Nat) : Bool :=
  if i.closed then i.low ≤ n * i.den && n * i.den ≤ i.high
  else i.low < n * i.den && n * i.den < i.high

/-- The integer in the interval nearest to its value, if there is one. -/
def Interval.nearestInteger? (tie : Tie) (i : Interval) : Option Nat :=
  let below := i.value / i.den
  let fromBelow := i.value - below * i.den
  let fromAbove := (below + 1) * i.den - i.value
  match i.contains below, i.contains (below + 1) with
  | false, false => none
  | true, false => some below
  | false, true => some (below + 1)
  | true, true =>
    if fromBelow < fromAbove then some below
    else if fromAbove < fromBelow then some (below + 1)
    else match tie with
      | .up => some (below + 1)
      | .even => if below % 2 = 0 then some below else some (below + 1)

/-- The power of ten just below a positive value: `10 ^ p ≤ value / den < 10 ^ (p + 1)`. -/
def Interval.leadingPower (i : Interval) : Int :=
  if i.den ≤ i.value then (digitCount (i.value / i.den) : Int) - 1
  else -(digitCount ((i.den + i.value - 1) / i.value - 1) : Int)

/-- The first grid, from `10 ^ power` down by powers of ten, with a point in the interval. -/
def search (tie : Tie) (i : Interval) (power : Int) : (grids : Nat) → Decimal
  | 0 => ⟨i.value / i.den, 0⟩
  | grids + 1 =>
    match (i.inUnits power).nearestInteger? tie with
    | some n => stripped ⟨n, power⟩
    | none => search tie i (power - 1) grids

/-- The shortest decimal of the double `significand * 2 ^ exponent`, for a positive significand.
Seventeen digits tell any two doubles apart. -/
def shortest (tie : Tie) (significand : Nat) (exponent : Int) : Decimal :=
  let i := Interval.ofDouble significand exponent
  search tie i i.leadingPower 17

end RecordCheck.Decimal
