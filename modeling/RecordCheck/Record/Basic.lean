import RecordCheck.Record.Shape
import RecordCheck.Complex.Literal
set_option autoImplicit false

/-!
# Record: the declared records

The five record types, and the sum of them that a type name in the JSON form tells apart.  Nothing
is checked when a record is made: any content of the fields' types is a record.
-/

namespace RecordCheck

/-- This is my type. -/
structure MyType where
  real : Int64
  deriving DecidableEq, Repr, Inhabited

/-- A constant segment of a complex-valued function of time. -/
structure ComplexSegment where
  duration : Float
  value : String
  coreType : String
  deriving BEq, Repr, Inhabited

/-- A constant segment of a complex-valued function of time, laid out as `ComplexSegment` but a type
of its own. -/
structure ComplexSegment22 where
  duration : Float
  value : String
  coreType : String
  deriving BEq, Repr, Inhabited

/-- A record with a text. -/
structure A where
  aString : String
  deriving DecidableEq, Repr, Inhabited

/-- A record that holds an `A` by value. -/
structure B where
  a : A
  bString : String
  deriving DecidableEq, Repr, Inhabited

/-- Any declared record. -/
inductive Record where
  | myType (r : MyType)
  | complexSegment (r : ComplexSegment)
  | complexSegment22 (r : ComplexSegment22)
  | a (r : A)
  | b (r : B)
  deriving BEq, Repr, Inhabited

/-- The complex number that the value of a segment names. -/
def ComplexSegment.complexValue (s : ComplexSegment) : Except Complex.LiteralError Complex :=
  Complex.parse s.value

/-- The complex number that the value of a segment names. -/
def ComplexSegment22.complexValue (s : ComplexSegment22) : Except Complex.LiteralError Complex :=
  Complex.parse s.value

/-- The segment of the other type with the same content. -/
def ComplexSegment.toSegment22 (s : ComplexSegment) : ComplexSegment22 :=
  ⟨s.duration, s.value, s.coreType⟩

/-- The segment of the other type with the same content. -/
def ComplexSegment22.toSegment (s : ComplexSegment22) : ComplexSegment :=
  ⟨s.duration, s.value, s.coreType⟩

namespace Record

/-- The shape of a record's type. -/
def shape : Record → RecordShape
  | .myType _ => .myType
  | .complexSegment _ => .complexSegment
  | .complexSegment22 _ => .complexSegment22
  | .a _ => .a
  | .b _ => .b

/-- The name of a record's type. -/
def typename : Record → String
  | .myType _ => "MyType"
  | .complexSegment _ => "ComplexSegment"
  | .complexSegment22 _ => "ComplexSegment22"
  | .a _ => "A"
  | .b _ => "B"

/-- The complex number of a segment, if the record is one. -/
def complexValue? : Record → Option (Except Complex.LiteralError Complex)
  | .complexSegment r => some r.complexValue
  | .complexSegment22 r => some r.complexValue
  | _ => none

end Record
end RecordCheck
