import RecordCheck.Table
set_option autoImplicit false

/-!
# JSON: values

A JSON value.  Numbers keep the form they were read in: integers are exact, all others are doubles.
The members of an object keep their order; a value as written may repeat a name, a value as
understood does not (`Json.distinct`).
-/

namespace RecordCheck

/-- A JSON value. -/
inductive Json where
  | null
  | bool (b : Bool)
  | integer (n : Int)
  | float (x : Float)
  | text (s : String)
  | array (items : List Json)
  | object (members : List (String × Json))
  deriving Repr, Inhabited

namespace Json

mutual

/-- The value in which every object holds each name once: at its first place, with its last
content. -/
def distinct : Json → Json
  | .array items => .array (distinctItems items)
  | .object members => .object (Table.ofMembers (distinctMembers members))
  | .null => .null
  | .bool b => .bool b
  | .integer n => .integer n
  | .float x => .float x
  | .text s => .text s

/-- The items of an array, each with distinct names. -/
def distinctItems : List Json → List Json
  | [] => []
  | item :: rest => distinct item :: distinctItems rest

/-- The contents of an object's members, each with distinct names. -/
def distinctMembers : List (String × Json) → List (String × Json)
  | [] => []
  | (name, content) :: rest => (name, distinct content) :: distinctMembers rest

end

end Json
end RecordCheck
