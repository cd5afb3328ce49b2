import RecordCheck.Check.Failure
import RecordCheck.Files.Expansion
import RecordCheck.Json.Pointer
import RecordCheck.Json.Reader
import RecordCheck.Text.Blank
import RecordCheck.Text.Lines
set_option autoImplicit false

/-!
# Check: loading inputs

Inputs are named by paths and patterns.  A file holds one JSON text, or one on each line that is not
blank.  From each value a pointer may select a node, of which a filter may make any number of
documents.  Sources keep the order in which they are named, and one failure fails all.
-/

namespace RecordCheck.Check

/-- Which documents to load. -/
structure Inputs where
  /-- paths and patterns -/
  patterns : List String
  /-- each line of a file is a JSON text -/
  linewise : Bool
  /-- selects a node of each value -/
  pointer : Option String
  /-- makes documents of each node -/
  filter : Option String
  deriving DecidableEq, Repr, Inhabited

/-- The documents of a file. -/
structure Source where
  path : String
  documents : List Json
  deriving Repr, Inhabited

/-- Puts the paths that are found behind those that are there, up to the first error. -/
def pushFound (paths : List String) : List Files.Found → Except LoadFailure (List String)
  | [] => .ok paths
  | .ok path :: rest => pushFound (paths ++ [path]) rest
  | .error e :: _ => .error (.unreadable e.path e.error)

/-- Puts the paths that a path or pattern stands for behind those that are there.  A path stands for
itself, whatever it leads to; a pattern has to find something. -/
def resolveOnto (files : Files.FileSystem) (paths : List String) (text : String) :
    Except LoadFailure (List String) :=
  if Files.isPattern text then
    match Files.Pattern.parse text with
    | .error e => .error (.invalidPattern text e)
    | .ok pattern =>
      match pushFound paths (files.expand pattern) with
      | .error e => .error e
      | .ok after => if after.length = paths.length then .error (.noMatches text) else .ok after
  else .ok (paths ++ [text])

/-- Puts the paths that paths and patterns stand for behind those that are there, in order. -/
def resolveAllOnto (files : Files.FileSystem) (paths : List String) :
    List String → Except LoadFailure (List String)
  | [] => .ok paths
  | text :: rest =>
    match resolveOnto files paths text with
    | .error e => .error e
    | .ok after => resolveAllOnto files after rest

/-- The paths that a path or pattern stands for. -/
def resolve (files : Files.FileSystem) (text : String) : Except LoadFailure (List String) :=
  resolveOnto files [] text

/-- The paths that paths and patterns stand for, in order. -/
def resolveAll (files : Files.FileSystem) (texts : List String) :
    Except LoadFailure (List String) :=
  resolveAllOnto files [] texts

/-- The value of a text in a file; a line number says that the text is a line. -/
def parseText (path : String) (line : Option Nat) (text : String) : Except LoadFailure Json :=
  let bytes := Json.bytesOf text
  match Json.ofBytes bytes with
  | .ok x => .ok x
  | .error fault => .error (.notJson path line fault.error (.before bytes fault.left))

/-- The lines of a text that are not blank, with their numbers from `number`. -/
def numberedLines (number : Nat) : List (List Char) → List (Nat × String)
  | [] => []
  | line :: rest =>
    if (Text.trim line).isEmpty then numberedLines (number + 1) rest
    else (number, String.ofList line) :: numberedLines (number + 1) rest

/-- The values of lines, in order. -/
def parseLines (path : String) : List (Nat × String) → Except LoadFailure (List Json)
  | [] => .ok []
  | (number, line) :: rest =>
    match parseText path (some number) line with
    | .error e => .error e
    | .ok x => (parseLines path rest).map (x :: ·)

namespace Inputs

/-- The values that the text of a file writes. -/
def values (inputs : Inputs) (path text : String) : Except LoadFailure (List Json) :=
  if inputs.linewise then parseLines path (numberedLines 1 (Text.lines text.toList))
  else (parseText path none text).map ([·])

/-- The node that is selected of a value. -/
def select (inputs : Inputs) (path : String) (x : Json) : Except LoadFailure Json :=
  match inputs.pointer with
  | none => .ok x
  | some pointer =>
    match x.select? pointer with
    | some node => .ok node
    | none => .error (.nothingSelected path pointer)

variable [Filter.Library]

/-- The documents that are made of a node. -/
def filtered (inputs : Inputs) (x : Json) : Except LoadFailure (List Json) :=
  match inputs.filter with
  | none => .ok [x]
  | some filter => (Filter.run filter x).mapError .filter

/-- The documents of values, in order. -/
def documents (inputs : Inputs) (path : String) : List Json → Except LoadFailure (List Json)
  | [] => .ok []
  | x :: rest =>
    match inputs.select path x with
    | .error e => .error e
    | .ok node =>
      match inputs.filtered node with
      | .error e => .error e
      | .ok made => (documents inputs path rest).map (made ++ ·)

/-- The documents of a text that a file holds. -/
def documentsOf (inputs : Inputs) (path text : String) : Except LoadFailure (List Json) :=
  match inputs.values path text with
  | .error e => .error e
  | .ok xs => inputs.documents path xs

/-- The source at a path. -/
def source (inputs : Inputs) (files : Files.FileSystem) (path : String) :
    Except LoadFailure Source :=
  match files.read path with
  | .error e => .error (.unreadable path e)
  | .ok text => (inputs.documentsOf path text).map fun documents => ⟨path, documents⟩

/-- The sources at paths, in order.  Of several that fail the first is reported; a run that reads
files at the same time may report any of them. -/
def sources (inputs : Inputs) (files : Files.FileSystem) :
    List String → Except LoadFailure (List Source)
  | [] => .ok []
  | path :: rest =>
    match inputs.source files path with
    | .error e => .error e
    | .ok s => (sources inputs files rest).map (s :: ·)

/-- All sources of the inputs. -/
def load (inputs : Inputs) (files : Files.FileSystem) : Except LoadFailure (List Source) :=
  match resolveAll files inputs.patterns with
  | .error e => .error e
  | .ok paths => inputs.sources files paths

end Inputs
end RecordCheck.Check
