import RecordCheck.Json.Number
import RecordCheck.Json.Quoted
set_option autoImplicit false

/-!
# JSON: reading texts

Reads a value from the bytes of a text.  A fault says where the reader stood and in which node.
Arrays and objects nest at most 127 deep.
-/

namespace RecordCheck.Json

/-- The byte may stand between tokens. -/
def isSpace (b : UInt8) : Bool := b = 0x20 || b = 0x0a || b = 0x09 || b = 0x0d

/-- The bytes from the next token on. -/
def skipSpace (bytes : Bytes) : Bytes := bytes.dropWhile isSpace

/-- Takes the letters of a word. -/
def word : List Char → Bytes → Except Fault Bytes
  | [], rest => .ok rest
  | _ :: _, [] => .error (.behind .endInValue [])
  | c :: letters, b :: rest =>
    if b = c.toUInt8 then word letters rest else .error (.behind .wordExpected rest)

/-- Goes to the next item of an array: `true` and the bytes of the item, or `false` and the bytes
from the closing bracket on. -/
def nextItem (first : Bool) (bytes : Bytes) : Except Fault (Bool × Bytes) :=
  match skipSpace bytes with
  | [] => .error (.ahead .endInList [])
  | b :: rest =>
    if b = 0x5d then .ok (false, b :: rest)
    else if first then .ok (true, b :: rest)
    else if b = 0x2c then
      match skipSpace rest with
      | [] => .error (.ahead .endInValue [])
      | b' :: rest' =>
        if b' = 0x5d then .error (.ahead .trailingComma (b' :: rest')) else .ok (true, b' :: rest')
    else .error (.ahead .listSeparatorExpected (b :: rest))

/-- Goes to the next member of an object: `true` and the bytes behind the opening quote of its name,
or `false` and the bytes from the closing brace on. -/
def nextMember (first : Bool) (bytes : Bytes) : Except Fault (Bool × Bytes) :=
  let name (bytes : Bytes) : Except Fault (Bool × Bytes) :=
    match bytes with
    | [] => .error (.ahead .endInValue [])
    | b :: rest =>
      if b = 0x22 then .ok (true, rest)
      else if b = 0x7d then .error (.ahead .trailingComma (b :: rest))
      else .error (.ahead .nameExpected (b :: rest))
  match skipSpace bytes with
  | [] => .error (.ahead .endInObject [])
  | b :: rest =>
    if b = 0x7d then .ok (false, b :: rest)
    else if first then name (b :: rest)
    else if b = 0x2c then name (skipSpace rest)
    else .error (.ahead .objectSeparatorExpected (b :: rest))

/-- Takes the colon behind a name. -/
def colon (bytes : Bytes) : Except Fault Bytes :=
  match skipSpace bytes with
  | [] => .error (.ahead .endInObject [])
  | b :: rest => if b = 0x3a then .ok rest else .error (.ahead .colonExpected (b :: rest))

/-- Reads the items of an array from the item number `index` on, and its closing bracket. -/
def items {α : Type} (item : Reader α) :
    (rounds : Nat) → (index : Nat) → (read : List α) → Reader (List α)
  | 0, _, _, bytes => .error (.behind .outOfRounds bytes)
  | rounds + 1, index, read, bytes =>
    match nextItem (index = 0) bytes with
    | .error fault => .error fault
    | .ok (false, rest) => .ok (read.reverse, rest.drop 1)
    | .ok (true, rest) =>
      match item rest with
      | .error fault => .error (fault.within (.index index))
      | .ok (x, rest) => items item rounds (index + 1) (x :: read) rest

/-- Reads the members of an object, behind those read, and its closing brace. -/
def members {α : Type} (content : Reader α) :
    (rounds : Nat) → (read : List (String × α)) → Reader (List (String × α))
  | 0, _, bytes => .error (.behind .outOfRounds bytes)
  | rounds + 1, read, bytes =>
    match nextMember read.isEmpty bytes with
    | .error fault => .error (fault.within .unnamed)
    | .ok (false, rest) => .ok (read.reverse, rest.drop 1)
    | .ok (true, rest) =>
      match string rest with
      | .error fault => .error (fault.within .unnamed)
      | .ok (name, rest) =>
        match colon rest with
        | .error fault => .error fault
        | .ok rest =>
          match content rest with
          | .error fault => .error (fault.within (.member name))
          | .ok (x, rest) => members content rounds ((name, x) :: read) rest

/-- Reads a value.  `inner` reads the nodes of an array or object, if one may stand here. -/
def valueOver (rounds : Nat) (inner : Option (Reader Json)) : Reader Json := fun bytes =>
  match skipSpace bytes with
  | [] => .error (.ahead .endInValue [])
  | b :: rest =>
    if b = 0x6e then (word ['u', 'l', 'l'] rest).map fun rest => (.null, rest)
    else if b = 0x74 then (word ['r', 'u', 'e'] rest).map fun rest => (.bool true, rest)
    else if b = 0x66 then (word ['a', 'l', 's', 'e'] rest).map fun rest => (.bool false, rest)
    else if b = 0x2d then number true rest
    else if isDigit b then number false (b :: rest)
    else if b = 0x22 then (string rest).map fun (s, rest) => (.text s, rest)
    else if b = 0x5b then
      match inner with
      | none => .error (.ahead .nestedTooDeep (b :: rest))
      | some inner => (items inner rounds 0 [] rest).map fun (xs, rest) => (.array xs, rest)
    else if b = 0x7b then
      match inner with
      | none => .error (.ahead .nestedTooDeep (b :: rest))
      | some inner => (members inner rounds [] rest).map fun (ms, rest) => (.object ms, rest)
    else .error (.ahead .valueExpected (b :: rest))

/-- Reads a value in which arrays and objects nest at most `depth` deep. -/
def value (rounds : Nat) : (depth : Nat) → Reader Json
  | 0 => valueOver rounds none
  | depth + 1 => valueOver rounds (some (value rounds depth))

/-- How deep arrays and objects may nest. -/
def depthLimit : Nat := 127

/-- Reads the value at the start of the bytes, names repeated as written.  An array or object has
fewer nodes than bytes, so as many rounds as bytes are enough. -/
def read (bytes : Bytes) : Except Fault (Json × Bytes) := value (bytes.length + 1) depthLimit bytes

/-- The value that the whole of the bytes writes. -/
def ofBytes (bytes : Bytes) : Except Fault Json :=
  match read bytes with
  | .error fault => .error fault
  | .ok (x, rest) =>
    match skipSpace rest with
    | [] => .ok x.distinct
    | rest => .error (.ahead .trailingCharacters rest)

/-- The bytes of a text. -/
def bytesOf (text : String) : Bytes := text.toUTF8.data.toList

/-- The value that a text writes. -/
def parse (text : String) : Except Fault Json := ofBytes (bytesOf text)

end RecordCheck.Json
