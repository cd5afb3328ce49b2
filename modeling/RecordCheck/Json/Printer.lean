import RecordCheck.Json.Basic
import RecordCheck.Decimal.Shortest
import RecordCheck.Decimal.Layout
set_option autoImplicit false

/-!
# JSON: writing texts

The compact text of a value, and the one with a line for each node.  A double is written with the
fewest digits that read back, positionally from `10 ^ -5` to below `10 ^ 16`, and always with a
fraction or a power; what is not finite is written as null.
-/

namespace RecordCheck.Json

/-- Powers of ten in a number: `1e+16`, `1e-7`. -/
def exponentStyle : Decimal.ExponentStyle := ⟨"+", 1⟩

/-- The text of a finite magnitude.  Of two equally short and near decimals the one with an even
last digit is taken. -/
def magnitudeText (significand : Nat) (exponent : Int) : String :=
  if significand = 0 then "0.0"
  else
    let decimal := Decimal.shortest .even significand exponent
    if -5 ≤ decimal.leadingPower ∧ decimal.leadingPower ≤ 15 then decimal.positional ".0"
    else decimal.scientific exponentStyle

/-- The text of a double. -/
def floatText (x : Float) : String :=
  match Binary64.Datum.ofFloat x with
  | .nan => "null"
  | .infinite _ => "null"
  | .finite negative significand exponent =>
    let text := magnitudeText significand exponent
    if negative then "-" ++ text else text

/-- Two hexadecimal digits of a number below 256. -/
def hexPair (n : Nat) : List Char := [Nat.digitChar (n / 16), Nat.digitChar (n % 16)]

/-- A character as it stands in a string. -/
def escaped (c : Char) : List Char :=
  if c = '"' then ['\\', '"']
  else if c = '\\' then ['\\', '\\']
  else if c.toNat < 0x20 then
    if c.toNat = 8 then ['\\', 'b']
    else if c.toNat = 9 then ['\\', 't']
    else if c.toNat = 10 then ['\\', 'n']
    else if c.toNat = 12 then ['\\', 'f']
    else if c.toNat = 13 then ['\\', 'r']
    else ['\\', 'u', '0', '0'] ++ hexPair c.toNat
  else [c]

/-- The characters of a string with its quotes. -/
def quoted (s : String) : List Char := '"' :: (s.toList.flatMap escaped ++ ['"'])

/-- The characters of a value that is neither array nor object. -/
def scalarChars : Json → List Char
  | .bool true => ['t', 'r', 'u', 'e']
  | .bool false => ['f', 'a', 'l', 's', 'e']
  | .integer n => (toString n).toList
  | .float x => (floatText x).toList
  | .text s => quoted s
  | _ => ['n', 'u', 'l', 'l']

mutual

/-- The characters of the compact text of a value. -/
def chars : Json → List Char
  | .array items => '[' :: (itemChars items ++ [']'])
  | .object members => '\x7b' :: (memberChars members ++ ['\x7d'])
  | .null => scalarChars .null
  | .bool b => scalarChars (.bool b)
  | .integer n => scalarChars (.integer n)
  | .float x => scalarChars (.float x)
  | .text s => scalarChars (.text s)

/-- The items of an array, with commas between. -/
def itemChars : List Json → List Char
  | [] => []
  | [item] => chars item
  | item :: next :: rest => chars item ++ ',' :: itemChars (next :: rest)

/-- The members of an object, with commas between. -/
def memberChars : List (String × Json) → List Char
  | [] => []
  | [(name, content)] => quoted name ++ ':' :: chars content
  | (name, content) :: next :: rest =>
    quoted name ++ ':' :: (chars content ++ ',' :: memberChars (next :: rest))

end

/-- The compact text of a value. -/
def compact (x : Json) : String := String.ofList (chars x)

/-- A line break and the indentation of a level, two blanks each. -/
def newLine (level : Nat) : List Char := '\n' :: List.replicate (2 * level) ' '

mutual

/-- The characters of the text of a value with a line for each node; `level` is the indentation of
the line it begins on. -/
def prettyChars (level : Nat) : Json → List Char
  | .array [] => ['[', ']']
  | .array (item :: items) =>
    '[' :: (prettyItems (level + 1) (item :: items) ++ newLine level ++ [']'])
  | .object [] => ['\x7b', '\x7d']
  | .object (member :: members) =>
    '\x7b' :: (prettyMembers (level + 1) (member :: members) ++ newLine level ++ ['\x7d'])
  | .null => scalarChars .null
  | .bool b => scalarChars (.bool b)
  | .integer n => scalarChars (.integer n)
  | .float x => scalarChars (.float x)
  | .text s => scalarChars (.text s)

/-- The items of an array, each on lines of its own. -/
def prettyItems (level : Nat) : List Json → List Char
  | [] => []
  | [item] => newLine level ++ prettyChars level item
  | item :: next :: rest =>
    newLine level ++ prettyChars level item ++ ',' :: prettyItems level (next :: rest)

/-- The members of an object, each on lines of its own. -/
def prettyMembers (level : Nat) : List (String × Json) → List Char
  | [] => []
  | [(name, content)] => newLine level ++ quoted name ++ ':' :: ' ' :: prettyChars level content
  | (name, content) :: next :: rest =>
    newLine level ++ quoted name ++ ':' :: ' ' ::
      (prettyChars level content ++ ',' :: prettyMembers level (next :: rest))

end

/-- The text of a value with a line for each node. -/
def pretty (x : Json) : String := String.ofList (prettyChars 0 x)

end RecordCheck.Json
