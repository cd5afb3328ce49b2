import RecordCheck.Check.Inputs
import RecordCheck.Decode.Record
set_option autoImplicit false

/-!
# Check: decoding inputs and reporting

A document is a record, or an array of records.  The records of a source are numbered in order, each
is decoded by itself, and the report has a line for each.
-/

namespace RecordCheck.Check

/-- What became of a record of a source. -/
structure Decoded where
  source : String
  /-- the number of the record among those of its source -/
  index : Nat
  outcome : Except Decode.Error Record

/-- The records of a document: the items of an array, of which none is opened, or the document. -/
def recordsOf : Json → List Json
  | .array items => items
  | x => [x]

/-- Decodes records of a source, the first of them with a number. -/
def decodeFrom (source : String) (index : Nat) : List Json → List Decoded
  | [] => []
  | x :: rest => ⟨source, index, Decode.record x⟩ :: decodeFrom source (index + 1) rest

/-- Decodes the records of a source. -/
def Source.decode (s : Source) : List Decoded :=
  decodeFrom s.path 0 (s.documents.flatMap recordsOf)

/-- Decodes the records of all inputs, in order. -/
def Inputs.decode [Filter.Library] (inputs : Inputs) (files : Files.FileSystem) :
    Except LoadFailure (List Decoded) :=
  (inputs.load files).map fun sources => sources.flatMap Source.decode

namespace Decoded

/-- How a report names a record. -/
def label (d : Decoded) : String := d.source ++ "#" ++ toString d.index

/-- The record, if it could be decoded. -/
def record? (d : Decoded) : Option Record := d.outcome.toOption

/-- The line of a report. -/
def line (d : Decoded) : String :=
  match d.outcome with
  | .ok record => "✅ " ++ d.label ++ " " ++ record.typename
  | .error e => "❌ " ++ d.label ++ " " ++ e.text

end Decoded

/-- How many records could be decoded, and how many could not. -/
structure Summary where
  passed : Nat
  failed : Nat
  deriving DecidableEq, Repr, Inhabited

/-- The numbers with one more outcome. -/
def Summary.count (s : Summary) (d : Decoded) : Summary :=
  match d.outcome with
  | .ok _ => { s with passed := s.passed + 1 }
  | .error _ => { s with failed := s.failed + 1 }

/-- The numbers of a list of outcomes, which are counted one by one. -/
def Summary.ofDecoded (decoded : List Decoded) : Summary := decoded.foldl Summary.count ⟨0, 0⟩

/-- The last line of a report. -/
def Summary.line (s : Summary) : String :=
  toString s.passed ++ " ok, " ++ toString s.failed ++ " failed"

/-- The records that could be decoded, as one JSON array. -/
def normalized (decoded : List Decoded) : Json :=
  .array ((decoded.filterMap Decoded.record?).map Record.toJson)

end RecordCheck.Check
