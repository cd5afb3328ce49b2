import RecordCheck.Json.Basic
set_option autoImplicit false

/-!
# Record: shapes

The declared records: their names, their documentation, and their fields with types, in the order
of declaration.  The JSON view of a list of shapes is keyed by record name.
-/

namespace RecordCheck

/-- The type of a field. -/
inductive FieldType where
  | integer
  | float
  | string
  /-- another declared record, held by value -/
  | record (name : String)
  deriving DecidableEq, Repr, Inhabited

/-- A declared field: the name of its JSON member, its type and its documentation. -/
structure FieldShape where
  name : String
  type : FieldType
  doc : Option String
  deriving DecidableEq, Repr, Inhabited

/-- A declared record. -/
structure RecordShape where
  name : String
  doc : Option String
  fields : List FieldShape
  deriving DecidableEq, Repr, Inhabited

/-- How a type is named. -/
def FieldType.name : FieldType → String
  | .integer => "integer"
  | .float => "float"
  | .string => "string"
  | .record name => name

/-- The member that holds the documentation, if there is any. -/
def docMember : Option String → List (String × Json)
  | some doc => [("doc", .text doc)]
  | none => []

/-- A field as JSON. -/
def FieldShape.toJson (f : FieldShape) : Json :=
  .object ([("name", .text f.name), ("ty", .text f.type.name)] ++ docMember f.doc)

namespace RecordShape

/-- A record as JSON. -/
def toJson (s : RecordShape) : Json :=
  .object ([("name", .text s.name)] ++ docMember s.doc
    ++ [("fields", .array (s.fields.map FieldShape.toJson))])

/-- The field of a name. -/
def field? (s : RecordShape) (name : String) : Option FieldShape :=
  s.fields.find? fun f => f.name = name

/-- The fields of both kinds of segment. -/
def segmentFields : List FieldShape :=
  [⟨"duration", .float, some "The duration of the segment."⟩,
   ⟨"value", .string, some "The value taken by the function on this segment."⟩,
   ⟨"_core_type", .string, some "The matching class in core."⟩]

/-- The documentation of both kinds of segment. -/
def segmentDoc : Option String := some "A constant segment of a complex-valued function of time."

/-- The shape of `MyType`. -/
def myType : RecordShape :=
  ⟨"MyType", some "This is my type", [⟨"real", .integer, some "This is my real"⟩]⟩

/-- The shape of `ComplexSegment`. -/
def complexSegment : RecordShape := ⟨"ComplexSegment", segmentDoc, segmentFields⟩

/-- The shape of `ComplexSegment22`. -/
def complexSegment22 : RecordShape := ⟨"ComplexSegment22", segmentDoc, segmentFields⟩

/-- The shape of `A`. -/
def a : RecordShape := ⟨"A", none, [⟨"a_string", .string, none⟩]⟩

/-- The shape of `B`. -/
def b : RecordShape := ⟨"B", none, [⟨"a", .record "A", none⟩, ⟨"b_string", .string, none⟩]⟩

/-- All declared shapes, in the order of declaration. -/
def declared : List RecordShape := [myType, complexSegment, complexSegment22, a, b]

/-- The declared shape of a name. -/
def ofName? (name : String) : Option RecordShape := declared.find? fun s => s.name = name

/-- The entry of a record in the JSON view: its fields by name, then its documentation. -/
def entry (s : RecordShape) : Json :=
  .object ([("fields", .object (Table.ofMembers (s.fields.map fun f => (f.name, f.toJson))))]
    ++ docMember s.doc)

/-- The JSON view of shapes by record name: each name at its first place, with its last entry. -/
def view (shapes : List RecordShape) : Json :=
  .object (Table.ofMembers (shapes.map fun s => (s.name, s.entry)))

/-- The declared shapes of the given names, in the order of declaration, or all if no name is given;
otherwise the first name that is not declared. -/
def selection (only : List String) : Except String (List RecordShape) :=
  match only.find? fun name => (ofName? name).isNone with
  | some unknown => .error unknown
  | none => .ok (declared.filter fun s => only.isEmpty || only.contains s.name)

end RecordShape
end RecordCheck
