import RecordCheck.Json.Path
set_option autoImplicit false

/-!
# JSON: faults of a text

Why a text is not JSON, where the reader stood, and within which node.
-/

namespace RecordCheck.Json

/-- The bytes of a text. -/
abbrev Bytes : Type := List UInt8

/-- Why a text is not JSON. -/
inductive SyntaxError where
  | endInValue
  | endInList
  | endInObject
  | endInString
  | colonExpected
  | listSeparatorExpected
  | objectSeparatorExpected
  | wordExpected
  | valueExpected
  | invalidEscape
  | invalidNumber
  | numberOutOfRange
  | invalidCodePoint
  | controlCharacter
  | nameExpected
  | loneSurrogate
  | brokenSurrogatePair
  | trailingComma
  | trailingCharacters
  | nestedTooDeep
  /-- the reader was given fewer rounds than the text has bytes; whole texts never end so -/
  | outOfRounds
  deriving DecidableEq, Repr, Inhabited

/-- The message of an error. -/
def SyntaxError.message : SyntaxError → String
  | .endInValue => "EOF while parsing a value"
  | .endInList => "EOF while parsing a list"
  | .endInObject => "EOF while parsing an object"
  | .endInString => "EOF while parsing a string"
  | .colonExpected => "expected `:`"
  | .listSeparatorExpected => "expected `,` or `]`"
  | .objectSeparatorExpected => "expected `,` or `\x7d`"
  | .wordExpected => "expected ident"
  | .valueExpected => "expected value"
  | .invalidEscape => "invalid escape"
  | .invalidNumber => "invalid number"
  | .numberOutOfRange => "number out of range"
  | .invalidCodePoint => "invalid unicode code point"
  | .controlCharacter => "control character (\\u0000-\\u001F) found while parsing a string"
  | .nameExpected => "key must be a string"
  | .loneSurrogate => "lone leading surrogate in hex escape"
  | .brokenSurrogatePair => "unexpected end of hex escape"
  | .trailingComma => "trailing comma"
  | .trailingCharacters => "trailing characters"
  | .nestedTooDeep => "recursion limit exceeded"
  | .outOfRounds => "reading ran out of rounds"

/-- An error of reading, with the number of bytes the reader had not taken. -/
structure Fault where
  error : SyntaxError
  left : Nat
  path : Path
  deriving DecidableEq, Repr, Inhabited

/-- The fault within a step. -/
def Fault.within (step : Step) (fault : Fault) : Fault := { fault with path := step :: fault.path }

/-- A fault at the last byte taken. -/
def Fault.behind (error : SyntaxError) (rest : Bytes) : Fault := ⟨error, rest.length, []⟩

/-- A fault at the next byte, or at the end. -/
def Fault.ahead (error : SyntaxError) (rest : Bytes) : Fault := ⟨error, rest.length - 1, []⟩

/-- A line and a column, the column in bytes. -/
structure Place where
  line : Nat
  column : Nat
  deriving DecidableEq, Repr, Inhabited

/-- The place behind the first `count` bytes. -/
def Place.behind (bytes : Bytes) (count : Nat) : Place :=
  (bytes.take count).foldl
    (fun place b => if b = 10 then ⟨place.line + 1, 0⟩ else ⟨place.line, place.column + 1⟩) ⟨1, 0⟩

/-- The place of a reader with `left` bytes to go. -/
def Place.before (bytes : Bytes) (left : Nat) : Place := .behind bytes (bytes.length - left)

/-- How a message ends that names a place. -/
def Place.suffix (place : Place) : String :=
  " at line " ++ toString place.line ++ " column " ++ toString place.column

/-- The message of a fault of a text. -/
def Fault.message (bytes : Bytes) (fault : Fault) : String :=
  fault.error.message ++ (Place.before bytes fault.left).suffix

/-- Reads a value at the start of the bytes and gives the rest. -/
abbrev Reader (α : Type) : Type := Bytes → Except Fault (α × Bytes)

end RecordCheck.Json
