import RecordCheck.Json.Fault
import RecordCheck.Json.Printer
import RecordCheck.Text.Quoted
set_option autoImplicit false

/-!
# Decode: failures

Why a JSON value or text is not a record, at which node, and how the message says it.
-/

namespace RecordCheck.Decode

/-- What stands at a node, as far as a message tells. -/
inductive Found where
  | null
  | bool (b : Bool)
  | integer (n : Int)
  | float (x : Float)
  | text (s : String)
  | sequence
  | map
  deriving DecidableEq, Repr, Inhabited

/-- What stands at a node. -/
def Found.ofJson : Json → Found
  | .null => .null
  | .bool b => .bool b
  | .integer n => .integer n
  | .float x => .float x
  | .text s => .text s
  | .array _ => .sequence
  | .object _ => .map

/-- How a message names what was found. -/
def Found.message : Found → String
  | .null => "null"
  | .bool b => "boolean `" ++ toString b ++ "`"
  | .integer n => "integer `" ++ toString n ++ "`"
  | .float x => "floating point `" ++ Json.floatText x ++ "`"
  | .text s => "string " ++ Text.quoted s
  | .sequence => "sequence"
  | .map => "map"

/-- What has to stand at a node. -/
inductive Expected where
  | integer
  | float
  | text
  | record (name : String)
  /-- the name of a record type -/
  | tag
  /-- an object or array that carries the name of its type -/
  | tagged
  deriving DecidableEq, Repr, Inhabited

/-- How a message names what has to stand. -/
def Expected.message : Expected → String
  | .integer => "i64"
  | .float => "f64"
  | .text => "a string"
  | .record name => "struct " ++ name
  | .tag => "variant identifier"
  | .tagged => "internally tagged enum Record"

/-- Why a node is not what has to stand there. -/
inductive Mismatch where
  | wrongType (found : Found) (expected : Expected)
  /-- of the right type, but out of its range -/
  | wrongValue (found : Found) (expected : Expected)
  | unknownField (name : String) (declared : List String)
  | missingField (name : String)
  | duplicateField (name : String)
  /-- the array form of a record ends before its last field -/
  | fewItems (record : String) (declared given : Nat)
  /-- the array form of a record goes on behind its last field -/
  | manyItems (declared given : Nat)
  | unknownVariant (name : String) (declared : List String)
  /-- what should be a tagged record is no object -/
  | notTagged
  /-- the type name of a tagged record is no text -/
  | tagNotText
  /-- the type name of a tagged record is none of the declared -/
  | unknownRecord (name : String)
  deriving DecidableEq, Repr, Inhabited

/-- A name between grave accents. -/
def ticked (name : String) : String := "`" ++ name ++ "`"

/-- How a message lists the names that are allowed. -/
def oneOf : List String → String
  | [] => "nothing"
  | [name] => ticked name
  | [first, second] => ticked first ++ " or " ++ ticked second
  | names => "one of " ++ ", ".intercalate (names.map ticked)

/-- A number of elements. -/
def elements (n : Nat) : String :=
  if n = 1 then "1 element" else toString n ++ " elements"

/-- The message of a mismatch.  `buffered` says that the node had been set aside before it was known
what has to stand there; it changes how a surplus of items is worded. -/
def Mismatch.message (buffered : Bool) : Mismatch → String
  | .wrongType found expected =>
    "invalid type: " ++ found.message ++ ", expected " ++ expected.message
  | .wrongValue found expected =>
    "invalid value: " ++ found.message ++ ", expected " ++ expected.message
  | .unknownField name declared =>
    "unknown field " ++ ticked name ++ ", expected " ++ oneOf declared
  | .missingField name => "missing field " ++ ticked name
  | .duplicateField name => "duplicate field " ++ ticked name
  | .fewItems record declared given =>
    "invalid length " ++ toString given ++ ", expected struct " ++ record ++ " with "
      ++ elements declared
  | .manyItems declared given =>
    "invalid length " ++ toString given ++ ", expected "
      ++ (if buffered then elements declared ++ " in sequence" else "fewer elements in array")
  | .unknownVariant name declared =>
    "unknown variant " ++ ticked name ++ ", expected " ++ oneOf declared
  | .notTagged => "expected a tagged record object"
  | .tagNotText => "expected a string"
  | .unknownRecord name => "unknown record type " ++ ticked name

/-- Why decoding failed. -/
inductive Cause where
  /-- the text is not JSON -/
  | fault (error : Json.SyntaxError)
  /-- the value is not what has to stand there -/
  | mismatch (m : Mismatch)
  deriving DecidableEq, Repr, Inhabited

/-- A failure to decode: its cause, the node it arose at, how many bytes of the text were not yet
taken (if it arose from a text), and whether the node had been set aside. -/
structure Failure where
  cause : Cause
  path : Json.Path
  left : Option Nat
  buffered : Bool
  deriving DecidableEq, Repr, Inhabited

namespace Failure

/-- The failure within a step. -/
def within (step : Json.Step) (failure : Failure) : Failure :=
  { failure with path := step :: failure.path }

/-- A node of a value that is not what has to stand there. -/
def ofMismatch (m : Mismatch) : Failure := ⟨.mismatch m, [], none, false⟩

/-- A node of a text that is not what has to stand there, found out with `rest` to go. -/
def atRest (m : Mismatch) (rest : Json.Bytes) : Failure :=
  ⟨.mismatch m, [], some rest.length, false⟩

/-- A text that is not JSON. -/
def ofFault (fault : Json.Fault) : Failure :=
  ⟨.fault fault.error, fault.path, some fault.left, false⟩

/-- The failure of a node that had been set aside: neither its place nor its path is known. -/
def setAside (failure : Failure) : Failure :=
  { failure with path := [], left := none, buffered := true }

end Failure

/-- What is reported of a failure: the path of the node and the message. -/
structure Error where
  path : String
  message : String
  deriving DecidableEq, Repr, Inhabited

/-- The text of an error. -/
def Error.text (e : Error) : String := "at JSON path " ++ e.path ++ " → " ++ e.message

/-- What is reported of a failure that arose from the bytes; there are none if it arose from a
value. -/
def Failure.report (bytes : Json.Bytes) (failure : Failure) : Error :=
  let message := match failure.cause with
    | .fault error => error.message
    | .mismatch m => m.message failure.buffered
  let place := match failure.left with
    | some left => (Json.Place.before bytes left).suffix
    | none => ""
  ⟨failure.path.text, message ++ place⟩

end RecordCheck.Decode
