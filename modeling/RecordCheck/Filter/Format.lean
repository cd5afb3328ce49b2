import RecordCheck.Filter.Place
import RecordCheck.Filter.Token
set_option autoImplicit false

/-!
# Filter: formats

The formats that texts and embedded values can be written in.
-/

namespace RecordCheck.Filter.Format

/-- The characters with which markup writes a character. -/
def markup (c : Char) : List Char :=
  if c = '<' then "&lt;".toList
  else if c = '>' then "&gt;".toList
  else if c = '&' then "&amp;".toList
  else if c = '\'' then "&apos;".toList
  else if c = '"' then "&quot;".toList
  else [c]

/-- A text in markup. -/
def html (s : String) : String := String.ofList (s.toList.flatMap markup)

/-- The hexadecimal digits of a byte, in capitals. -/
def hexByte (b : UInt8) : List Char :=
  [(Nat.digitChar (b.toNat / 16)).toUpper, (Nat.digitChar (b.toNat % 16)).toUpper]

/-- The byte stands for itself in an address. -/
def isUnreserved (b : UInt8) : Bool :=
  let c := Char.ofNat b.toNat
  Token.continuesName c || c = '-' || c = '.' || c = '~'

/-- A text as part of an address. -/
def uri (s : String) : String :=
  String.ofList ((Json.bytesOf s).flatMap fun b =>
    if isUnreserved b then [Char.ofNat b.toNat] else '%' :: hexByte b)

/-- The digits of base 64. -/
def base64Digits : List Char :=
  "ABCDEFGHIJKLMNOPQRSTUVWXYZabcdefghijklmnopqrstuvwxyz0123456789+/".toList

/-- A digit of base 64. -/
def base64Digit (n : Nat) : Char := base64Digits[n]?.getD '='

/-- Bytes in base 64. -/
def base64Chars : List UInt8 → List Char
  | [] => []
  | [a] =>
    let n := a.toNat * 16
    [base64Digit (n / 64), base64Digit (n % 64), '=', '=']
  | [a, b] =>
    let n := (a.toNat * 256 + b.toNat) * 4
    [base64Digit (n / 4096), base64Digit (n / 64 % 64), base64Digit (n % 64), '=']
  | a :: b :: c :: rest =>
    let n := (a.toNat * 256 + b.toNat) * 256 + c.toNat
    base64Digit (n / 262144) :: base64Digit (n / 4096 % 64) :: base64Digit (n / 64 % 64)
      :: base64Digit (n % 64) :: base64Chars rest

/-- A text in base 64. -/
def base64 (s : String) : String := String.ofList (base64Chars (Json.bytesOf s))

/-- The value of a digit of base 64. -/
def base64Value? (c : Char) : Option Nat := base64Digits.findIdx? (· = c)

/-- The bytes of a text in base 64; bits that are left over have to be zero. -/
def base64Bytes? : List Char → Option (List UInt8)
  | [] => some []
  | [a, b, '=', '='] => do
    let n := (← base64Value? a) * 64 + (← base64Value? b)
    if n % 16 = 0 then some [UInt8.ofNat (n / 16)] else none
  | [a, b, c, '='] => do
    let n := ((← base64Value? a) * 64 + (← base64Value? b)) * 64 + (← base64Value? c)
    if n % 4 = 0 then some [UInt8.ofNat (n / 1024), UInt8.ofNat (n / 4 % 256)] else none
  | a :: b :: c :: d :: rest => do
    let n := (((← base64Value? a) * 64 + (← base64Value? b)) * 64 + (← base64Value? c)) * 64
      + (← base64Value? d)
    let others ← base64Bytes? rest
    some (UInt8.ofNat (n / 65536) :: UInt8.ofNat (n / 256 % 256) :: UInt8.ofNat (n % 256) :: others)
  | _ => none

/-- The text that a text in base 64 writes. -/
def unbase64 (s : String) : Checked Value :=
  match (base64Bytes? s.toList).bind fun bytes => String.fromUTF8? (ByteArray.mk bytes.toArray) with
  | some text => .ok (.text text)
  | none => .error (.cannotFormat (.text s))

/-- A value that may stand in a row: no array and no object. -/
def cell (text : String → String) (v : Value) : Checked String :=
  match v with
  | .text s => .ok (text s)
  | .null => .ok ""
  | .array _ => .error (.cannotFormat v)
  | .object _ => .error (.cannotFormat v)
  | v => .ok v.render

/-- Values in a row. -/
def row (text : String → String) (separator : String) (v : Value) : Checked Value :=
  match v.items? with
  | .error p => .error p
  | .ok items => (items.mapM (cell text)).map fun cells => .text (separator.intercalate cells)

/-- A text between quotes, each quote in it twice. -/
def csvText (s : String) : String :=
  "\"" ++ String.ofList (s.toList.flatMap fun c => if c = '"' then ['"', '"'] else [c]) ++ "\""

/-- A text in a row divided by tabs. -/
def tsvText (s : String) : String :=
  String.ofList (s.toList.flatMap fun c =>
    if c = '\\' then ['\\', '\\']
    else if c = '\t' then ['\\', 't']
    else if c = '\n' then ['\\', 'n']
    else if c = '\r' then ['\\', 'r']
    else [c])

/-- A text as a word of a command line. -/
def shellText (s : String) : String :=
  "'" ++ String.ofList (s.toList.flatMap fun c =>
    if c = '\'' then ['\'', '\\', '\'', '\''] else [c]) ++ "'"

/-- A value as a word of a command line. -/
def shellWord (v : Value) : Checked String :=
  match v with
  | .text s => .ok (shellText s)
  | .array _ => .error (.cannotFormat v)
  | .object _ => .error (.cannotFormat v)
  | v => .ok v.render

/-- A value, or the items of an array, as words of a command line. -/
def shell (v : Value) : Checked Value :=
  match v with
  | .array items => (items.mapM shellWord).map fun words => .text (" ".intercalate words)
  | v => (shellWord v).map .text

/-- The format of a name. -/
def ofName? (name : String) : Option (Value → Checked Value) :=
  match name with
  | "@text" => some fun v => .ok (.text v.display)
  | "@json" => some fun v => .ok (.text v.render)
  | "@html" => some fun v => .ok (.text (html v.display))
  | "@uri" => some fun v => .ok (.text (uri v.display))
  | "@base64" => some fun v => .ok (.text (base64 v.display))
  | "@base64d" => some fun v => unbase64 v.display
  | "@csv" => some (row csvText ",")
  | "@tsv" => some (row tsvText "\t")
  | "@sh" => some shell
  | _ => none

end RecordCheck.Filter.Format
