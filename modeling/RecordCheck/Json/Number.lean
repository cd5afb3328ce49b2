import RecordCheck.Json.Basic
import RecordCheck.Json.Fault
import RecordCheck.Binary64.Nearest
set_option autoImplicit false

/-!
# JSON: reading numbers

A number without fraction and power is an integer if it lies between `-2 ^ 63` and `2 ^ 64`, and is
not a zero with a minus; any other is a double.  The double is found quickly and not always exactly:
digits are taken into a significand as long as it stays below `2 ^ 64`, and the significand, as a
double, is multiplied or divided by a power of ten.
-/

namespace RecordCheck.Json

/-- The byte is a decimal digit. -/
def isDigit (b : UInt8) : Bool := 0x30 ≤ b && b ≤ 0x39

/-- The value of a decimal digit. -/
def digitValue (b : UInt8) : Nat := b.toNat - 0x30

/-- The digits at the start of the bytes, and the rest. -/
def digits (bytes : Bytes) : List Nat × Bytes :=
  ((bytes.takeWhile isDigit).map digitValue, bytes.dropWhile isDigit)

/-- Takes digits behind a number as long as it stays at most `limit`: the number, and how many
digits are left over. -/
def takeDigits (limit : Nat) (n : Nat) : List Nat → Nat × Nat
  | [] => (n, 0)
  | d :: rest =>
    if 10 * n + d ≤ limit then takeDigits limit (10 * n + d) rest else (n, rest.length + 1)

/-- The greatest significand. -/
def significandLimit : Nat := twoTo 64 - 1

/-- The greatest power of ten that is read digit by digit. -/
def powerLimit : Nat := twoTo 31 - 1

/-- The double nearest to `10 ^ n`. -/
def powerOfTen (n : Nat) : Float := Binary64.nearest false (tenTo n) 1

/-- A double divided by `10 ^ n`, where powers above `10 ^ 308` take several divisions. -/
def dividedByTens (x : Float) (n : Nat) : Float :=
  if n ≤ 308 then x / powerOfTen n
  else if x == 0 then x
  else dividedByTens (x / powerOfTen 308) (n - 308)
  termination_by n
  decreasing_by omega

/-- `significand * 10 ^ power` as a double, unless it is too large. -/
def scaled? (significand : Nat) (power : Int) : Option Float :=
  let x := Binary64.nearest false significand 1
  if power < 0 then some (dividedByTens x power.natAbs)
  else if 308 < power then if significand = 0 then some x else none
  else
    let product := x * powerOfTen power.toNat
    if product.isInf then none else some product

/-- A double with the sign of its number. -/
def signed (negative : Bool) (x : Float) : Json := .float (if negative then -x else x)

/-- The number of a significand and a power of ten. -/
def scaledNumber (negative : Bool) (significand : Nat) (power : Int) (rest : Bytes) :
    Except Fault (Json × Bytes) :=
  match scaled? significand power with
  | some x => .ok (signed negative x, rest)
  | none => .error (.behind .numberOutOfRange rest)

/-- Reads the power of ten of a number, behind its `e`.  A power too long to count makes the number
zero or too large. -/
def power (negative : Bool) (significand : Nat) (start : Int) (bytes : Bytes) :
    Except Fault (Json × Bytes) :=
  let (down, afterSign) := match bytes with
    | b :: rest =>
      if b = 0x2b then (false, rest) else if b = 0x2d then (true, rest) else (false, bytes)
    | [] => (false, bytes)
  match afterSign with
  | [] => .error (.behind .endInValue [])
  | b :: others =>
    if isDigit b then
      let (ds, rest) := digits afterSign
      match takeDigits powerLimit 0 ds with
      | (n, 0) => scaledNumber negative significand (if down then start - n else start + n) rest
      | (_, leftOver + 1) =>
        if significand = 0 || down then .ok (signed negative 0, rest)
        else .error ⟨.numberOutOfRange, rest.length + leftOver, []⟩
    else .error (.behind .invalidNumber others)

/-- The byte begins a power of ten. -/
def beginsPower (b : UInt8) : Bool := b = 0x65 || b = 0x45

/-- Reads the digits behind the point of a number. -/
def fraction (negative : Bool) (significand : Nat) (start : Int) (bytes : Bytes) :
    Except Fault (Json × Bytes) :=
  match digits bytes with
  | ([], []) => .error (.ahead .endInValue [])
  | ([], rest) => .error (.ahead .invalidNumber rest)
  | (ds, rest) =>
    let (significand', leftOver) := takeDigits significandLimit significand ds
    let exponent : Int := start - (ds.length - leftOver : Nat)
    match rest with
    | b :: behind =>
      if beginsPower b then power negative significand' exponent behind
      else scaledNumber negative significand' exponent rest
    | [] => scaledNumber negative significand' exponent rest

/-- A number without point and power. -/
def wholeNumber (negative : Bool) (significand : Nat) : Json :=
  if !negative then .integer significand
  else if significand = 0 || twoTo 63 < significand then
    .float (-(Binary64.nearest false significand 1))
  else .integer (-(significand : Int))

/-- Reads a number, behind its minus. -/
def number (negative : Bool) (bytes : Bytes) : Except Fault (Json × Bytes) :=
  match bytes with
  | [] => .error (.behind .endInValue [])
  | first :: others =>
    if !isDigit first then .error (.behind .invalidNumber others)
    else if first = 0x30 && others.head?.any isDigit then .error (.ahead .invalidNumber others)
    else
      let (ds, rest) := digits bytes
      let (significand, leftOver) := takeDigits significandLimit 0 ds
      let plain := if leftOver = 0 then .ok (wholeNumber negative significand, rest)
        else scaledNumber negative significand leftOver rest
      match rest with
      | b :: behind =>
        if b = 0x2e then fraction negative significand leftOver behind
        else if beginsPower b then power negative significand leftOver behind
        else plain
      | [] => plain

end RecordCheck.Json
