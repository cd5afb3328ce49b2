import RecordCheck.Record.Basic
set_option autoImplicit false

/-!
# Record: the JSON form

A record is an object of its fields in the order of declaration.  Where any record may stand, its
type name goes first.
-/

namespace RecordCheck

/-- The member that holds the type name. -/
def tagName : String := "__typename"

/-- The fields of a `MyType` as members. -/
def MyType.members (r : MyType) : List (String × Json) := [("real", .integer r.real.toInt)]

/-- The fields of a segment as members. -/
def ComplexSegment.members (r : ComplexSegment) : List (String × Json) :=
  [("duration", .float r.duration), ("value", .text r.value), ("_core_type", .text r.coreType)]

/-- The fields of a segment as members. -/
def ComplexSegment22.members (r : ComplexSegment22) : List (String × Json) :=
  [("duration", .float r.duration), ("value", .text r.value), ("_core_type", .text r.coreType)]

/-- The field of an `A` as members. -/
def A.members (r : A) : List (String × Json) := [("a_string", .text r.aString)]

/-- The fields of a `B` as members. -/
def B.members (r : B) : List (String × Json) :=
  [("a", .object r.a.members), ("b_string", .text r.bString)]

namespace Record

/-- The fields of a record as members. -/
def members : Record → List (String × Json)
  | .myType r => r.members
  | .complexSegment r => r.members
  | .complexSegment22 r => r.members
  | .a r => r.members
  | .b r => r.members

/-- A record as JSON, its type name first. -/
def toJson (r : Record) : Json := .object ((tagName, .text r.typename) :: r.members)

end Record
end RecordCheck
