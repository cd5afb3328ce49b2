import RecordCheck.Json.Printer
import RecordCheck.Json.Reader
set_option autoImplicit false

/-!
# Filter: values

What filters work on: JSON values in which a number is an integer, a double, or a number kept as it
was spelled.  A spelled number counts as the double nearest to it.
-/

namespace RecordCheck.Filter

/-- A value. -/
inductive Value where
  | null
  | bool (b : Bool)
  | integer (n : Int)
  | float (x : Float)
  /-- a number as it is spelled, with the double nearest to it -/
  | number (spelling : String) (x : Float)
  | text (s : String)
  | array (items : List Value)
  | object (members : List (String × Value))
  deriving Repr, Inhabited

namespace Value

/-- The integers that are kept as integers. -/
def isWord (n : Int) : Bool := -(twoTo 63) ≤ n && n < twoTo 63

mutual

/-- A JSON value as a value: integers beyond 64 bits and doubles are kept as they are written. -/
def ofJson : Json → Value
  | .null => .null
  | .bool b => .bool b
  | .integer n =>
    if isWord n then .integer n else .number (toString n) (Binary64.ofInt n)
  | .float x => .number (Json.floatText x) x
  | .text s => .text s
  | .array items => .array (ofItems items)
  | .object members => .object (ofMembers members)

/-- The items of an array as values. -/
def ofItems : List Json → List Value
  | [] => []
  | item :: rest => ofJson item :: ofItems rest

/-- The members of an object as values. -/
def ofMembers : List (String × Json) → List (String × Value)
  | [] => []
  | (name, content) :: rest => (name, ofJson content) :: ofMembers rest

end

/-- Powers of ten in a double: `1e16`, `1e-7`. -/
def exponentStyle : Decimal.ExponentStyle := ⟨"", 1⟩

/-- The text of a finite magnitude.  Of two equally short and near decimals the larger is taken. -/
def magnitudeText (significand : Nat) (exponent : Int) : String :=
  if significand = 0 then "0.0"
  else
    let decimal := Decimal.shortest .up significand exponent
    if Decimal.isMiddling significand exponent then decimal.positional ".0"
    else decimal.scientific exponentStyle

/-- The text of a double; what is not finite is null. -/
def floatText (x : Float) : String :=
  match Binary64.Datum.ofFloat x with
  | .nan => "null"
  | .infinite _ => "null"
  | .finite negative significand exponent =>
    let text := magnitudeText significand exponent
    if negative then "-" ++ text else text

mutual

/-- The characters of a value's text. -/
def chars : Value → List Char
  | .null => ['n', 'u', 'l', 'l']
  | .bool b => (toString b).toList
  | .integer n => (toString n).toList
  | .float x => (floatText x).toList
  | .number spelling _ => spelling.toList
  | .text s => Json.quoted s
  | .array items => '[' :: (itemChars items ++ [']'])
  | .object members => '\x7b' :: (memberChars members ++ ['\x7d'])

/-- The items of an array, with commas between. -/
def itemChars : List Value → List Char
  | [] => []
  | [item] => chars item
  | item :: next :: rest => chars item ++ ',' :: itemChars (next :: rest)

/-- The members of an object, with commas between. -/
def memberChars : List (String × Value) → List Char
  | [] => []
  | [(name, content)] => Json.quoted name ++ ':' :: chars content
  | (name, content) :: next :: rest =>
    Json.quoted name ++ ':' :: (chars content ++ ',' :: memberChars (next :: rest))

end

/-- The JSON text of a value. -/
def render (v : Value) : String := String.ofList v.chars

/-- The text of a value where texts stand for themselves. -/
def display : Value → String
  | .text s => s
  | v => v.render

/-- Null and false do not hold, all else holds. -/
def holds : Value → Bool
  | .null => false
  | .bool b => b
  | _ => true

/-- The double that a number is. -/
def toFloat? : Value → Option Float
  | .integer n => some (Binary64.ofInt n)
  | .float x => some x
  | .number _ x => some x
  | _ => none

/-- The value is a number. -/
def isNumber (v : Value) : Bool := v.toFloat?.isSome

/-- The name of a value's type. -/
def typeName : Value → String
  | .null => "null"
  | .bool _ => "boolean"
  | .integer _ => "number"
  | .float _ => "number"
  | .number _ _ => "number"
  | .text _ => "string"
  | .array _ => "array"
  | .object _ => "object"

/-- The digits of a text, and the rest. -/
def spanDigits (text : List Char) : List Char × List Char :=
  (text.takeWhile Char.isDigit, text.dropWhile Char.isDigit)

/-- The decimal that an unsigned number is, as it is spelled. -/
def decimalOf (spelling : List Char) : Decimal :=
  let (whole, rest) := spanDigits spelling
  let (fraction, rest) := match rest with
    | '.' :: rest => spanDigits rest
    | _ => ([], rest)
  let power : Int := match rest with
    | _ :: '-' :: ds => -(Nat.ofDigitChars 10 ds 0 : Int)
    | _ :: '+' :: ds => (Nat.ofDigitChars 10 ds 0 : Int)
    | _ :: ds => (Nat.ofDigitChars 10 ds 0 : Int)
    | [] => 0
  ⟨Nat.ofDigitChars 10 (whole ++ fraction) 0, power - fraction.length⟩

/-- The number that is spelled so: an integer of 64 bits, or a number kept as it is spelled. -/
def ofSpelling (spelling : String) : Value :=
  let (negative, unsigned) := match spelling.toList with
    | '-' :: rest => (true, rest)
    | chars => (false, chars)
  let magnitude : Int := Nat.ofDigitChars 10 unsigned 0
  let n := if negative then -magnitude else magnitude
  if unsigned.all Char.isDigit && isWord n then .integer n
  else .number spelling ((decimalOf unsigned).toFloat negative)

end Value
end RecordCheck.Filter
