import RecordCheck.Filter.Value
import RecordCheck.Filter.Token
set_option autoImplicit false

/-!
# Filter: values from texts

Reads a value from its JSON text, with each number kept as it is spelled.  Unlike the reader of
documents it bounds the nesting by the length of the text alone, and it says what the text lacks
rather than where.
-/

namespace RecordCheck.Filter.Value

/-- What a text lacks where reading it stopped. -/
inductive Lack where
  | value
  | valueOrClose
  | separatorOrClose
  | name
  | colon
  | endOfText
  | digit
  /-- the rest of a string -/
  | string (error : Json.SyntaxError)
  deriving DecidableEq, Repr, Inhabited

/-- The message about a string that cannot be read. -/
def stringMessage : Json.SyntaxError → String
  | .endInString => "unterminated string"
  | .controlCharacter => "invalid control character"
  | .invalidEscape => "unknown escape sequence type"
  | .loneSurrogate => "expected low surrogate"
  | .brokenSurrogatePair => "expected low surrogate"
  | error => error.message

/-- The message about a lack. -/
def Lack.message : Lack → String
  | .value => "value expected"
  | .valueOrClose => "value or end of sequence expected"
  | .separatorOrClose => "comma or end of sequence expected"
  | .name => "string expected"
  | .colon => "colon expected"
  | .endOfText => "end of file expected"
  | .digit => "digit expected"
  | .string error => stringMessage error

/-- Reads a part of a text at the start of the bytes and gives the rest. -/
abbrev Spelled (α : Type) : Type := Json.Bytes → Except Lack (α × Json.Bytes)

/-- The byte may stand in a number. -/
def inNumber (b : UInt8) : Bool :=
  Json.isDigit b || b = 0x2b || b = 0x2d || b = 0x2e || b = 0x45 || b = 0x65

/-- The spelling of a number at the start of a text.  A number that begins with a zero has no other
digit before its point, so what stands behind that zero is left to the reader of the rest. -/
def spelling? (text : List Char) : Option (List Char) :=
  let (minus, unsigned) := match text with
    | '-' :: rest => (['-'], rest)
    | _ => ([], text)
  match unsigned with
  | '0' :: d :: _ =>
    if Token.isDigit d then some (minus ++ ['0'])
    else (Token.number? unsigned).map fun (s, _) => minus ++ s
  | _ => (Token.number? unsigned).map fun (s, _) => minus ++ s

/-- Reads a number. -/
def readNumber : Spelled Value := fun bytes =>
  let text := (bytes.takeWhile inNumber).map fun b => Char.ofNat b.toNat
  match spelling? text with
  | some s => .ok (ofSpelling (String.ofList s), bytes.drop s.length)
  | none => .error .digit

/-- Reads a string behind its opening quote. -/
def readString : Spelled String :=
  fun bytes => (Json.string bytes).mapError fun f => .string f.error

/-- Takes the letters of a word. -/
def readWord (letters : List Char) (v : Value) : Spelled Value := fun bytes =>
  match Json.word letters bytes with
  | .ok rest => .ok (v, rest)
  | .error _ => .error .value

/-- Goes to the next node of an array or object that the byte `close` ends: `true` and the bytes of
the node, or `false` and the bytes behind the closing byte. -/
def nextNode (close : UInt8) (first : Bool) (bytes : Json.Bytes) :
    Except Lack (Bool × Json.Bytes) :=
  match Json.skipSpace bytes with
  | [] => .error (if first then .valueOrClose else .separatorOrClose)
  | b :: rest =>
    if b = close then .ok (false, rest)
    else if first then .ok (true, b :: rest)
    else if b = 0x2c then .ok (true, rest)
    else .error .separatorOrClose

/-- Reads the nodes of an array or object behind those read, and its closing byte. -/
def readNodes {α : Type} (close : UInt8) (node : Spelled α) :
    (rounds : Nat) → (read : List α) → Spelled (List α)
  | 0, _, _ => .error .separatorOrClose
  | rounds + 1, read, bytes =>
    match nextNode close read.isEmpty bytes with
    | .error lack => .error lack
    | .ok (false, rest) => .ok (read.reverse, rest)
    | .ok (true, rest) =>
      match node rest with
      | .error lack => .error lack
      | .ok (x, rest) => readNodes close node rounds (x :: read) rest

/-- Reads a member of an object. -/
def readMember (content : Spelled Value) : Spelled (String × Value) := fun bytes =>
  match Json.skipSpace bytes with
  | [] => .error .value
  | b :: rest =>
    if b = 0x22 then do
      let (name, rest) ← readString rest
      match Json.skipSpace rest with
      | [] => .error .colon
      | b :: rest =>
        if b = 0x3a then (content rest).map fun (v, rest) => ((name, v), rest) else .error .colon
    else .error .name

/-- Reads a value.  `inner` reads the nodes of an array or object. -/
def readOver (rounds : Nat) (inner : Spelled Value) : Spelled Value := fun bytes =>
  match Json.skipSpace bytes with
  | [] => .error .value
  | b :: rest =>
    if b = 0x6e then readWord ['u', 'l', 'l'] .null rest
    else if b = 0x74 then readWord ['r', 'u', 'e'] (.bool true) rest
    else if b = 0x66 then readWord ['a', 'l', 's', 'e'] (.bool false) rest
    else if b = 0x2d || Json.isDigit b then readNumber (b :: rest)
    else if b = 0x22 then (readString rest).map fun (s, rest) => (.text s, rest)
    else if b = 0x5b then
      (readNodes 0x5d inner rounds [] rest).map fun (xs, rest) => (.array xs, rest)
    else if b = 0x7b then
      (readNodes 0x7d (readMember inner) rounds [] rest).map fun (ms, rest) =>
        (.object (Table.ofMembers ms), rest)
    else .error .value

/-- Reads a value in which arrays and objects nest less than `depth` deep. -/
def readWithin (rounds : Nat) : (depth : Nat) → Spelled Value
  | 0 => fun _ => .error .value
  | depth + 1 => fun bytes => readOver rounds (readWithin rounds depth) bytes

/-- The value that a text writes.  Each node and each level of nesting takes a byte of its own, so
the number of bytes bounds both. -/
def parse (text : String) : Except Lack Value :=
  let bytes := Json.bytesOf text
  match readWithin (bytes.length + 1) (bytes.length + 1) bytes with
  | .error lack => .error lack
  | .ok (v, rest) => if (Json.skipSpace rest).isEmpty then .ok v else .error .endOfText

end RecordCheck.Filter.Value
