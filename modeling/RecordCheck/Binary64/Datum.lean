import RecordCheck.Powers
set_option autoImplicit false

/-!
# Binary64: what a double stands for

A double is not a number, an infinity, or a signed magnitude `significand * 2 ^ exponent`.  All
exact work on doubles (writing the shortest decimal, reading the nearest double) goes through this
form.
-/

namespace RecordCheck.Binary64

/-- What a double stands for.  A finite one has the least exponent its word allows: `-1074` below
the normal range, and a significand of 53 bits within it. -/
inductive Datum where
  | nan
  | infinite (negative : Bool)
  | finite (negative : Bool) (significand : Nat) (exponent : Int)
  deriving DecidableEq, Repr, Inhabited

/-- The number of significands of one binade: `2 ^ 52`. -/
def binade : Nat := 4503599627370496

/-- The datum of a 64-bit word: a sign bit, eleven bits of exponent, and the fraction. -/
def Datum.ofBits (bits : UInt64) : Datum :=
  let word := bits.toNat
  let negative := decide (twoTo 63 ≤ word)
  let power := word / binade % 2048
  let fraction := word % binade
  if power = 2047 then
    if fraction = 0 then .infinite negative else .nan
  else if power = 0 then .finite negative fraction (-1074)
  else .finite negative (binade + fraction) (power - 1075 : Int)

/-- The datum of a double. -/
def Datum.ofFloat (x : Float) : Datum := .ofBits x.toBits

/-- The word of the infinity without sign. -/
def infinityBits : Nat := 2047 * binade

/-- The word with a sign bit and the word of a magnitude. -/
def signedBits (negative : Bool) (magnitude : Nat) : UInt64 :=
  UInt64.ofNat (if negative then twoTo 63 + magnitude else magnitude)

/-- The double with a sign and the word of its magnitude. -/
def withSign (negative : Bool) (magnitude : Nat) : Float :=
  Float.ofBits (signedBits negative magnitude)

/-- The infinities. -/
def infinity (negative : Bool) : Float := withSign negative infinityBits

/-- The zeros. -/
def zero (negative : Bool) : Float := withSign negative 0

/-- The word without sign that is written for what is not a number. -/
def notNumberBits : Nat := infinityBits + binade / 2

/-- Not a number. -/
def notNumber : Float := Float.ofBits 0x7ff8000000000000

/-- The word has its sign bit set. -/
def signBit (bits : UInt64) : Bool := decide (twoTo 63 ≤ bits.toNat)

/-- The word stands for what is not a number. -/
def isNotNumber (bits : UInt64) : Bool := Datum.ofBits bits == .nan

/-- The double without its sign. -/
def magnitude (x : Float) : Float := withSign false (x.toBits.toNat % twoTo 63)

end RecordCheck.Binary64
