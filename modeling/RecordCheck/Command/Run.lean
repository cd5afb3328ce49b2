import RecordCheck.Command.Basic
import RecordCheck.Check.Report
import RecordCheck.Json.Printer
import RecordCheck.Record.Json
import RecordCheck.Record.Shape
set_option autoImplicit false

/-!
# Command: running a command

A run reads the files, and gives what it prints, the files as it leaves them, and whether all
passed.  What stops a run before its output leaves the files as they were.
-/

namespace RecordCheck.Command

/-- Why a run fails. -/
inductive RunError where
  | unknownRecord (name : String)
  | load (failure : Check.LoadFailure)
  /-- a directory for the output could not be made -/
  | directory (path : String) (error : Files.FileError)
  | output (path : String) (error : Files.FileError)
  deriving Repr, Inhabited

/-- The message of an error. -/
def RunError.message : RunError → String
  | .unknownRecord name => "unknown record name: " ++ name
  | .load failure => "failed to load inputs: " ++ failure.fullMessage
  | .directory path error => "failed to create " ++ path ++ ": " ++ error.message
  | .output path error => "failed to write " ++ path ++ ": " ++ error.message

/-- What a run comes to. -/
structure Outcome where
  /-- all passed, or why the run failed -/
  verdict : Except RunError Bool
  /-- the text for standard output -/
  stdout : String
  /-- the lines for standard error -/
  stderr : List String
  /-- the path and text of the file that was written -/
  written : Option (String × String)
  /-- the files afterwards -/
  files : Files.FileSystem

/-- Makes the directories that lead to a path. -/
def makeParents (files : Files.FileSystem) (path : String) :
    Files.FileSystem × Except RunError Unit :=
  match Files.parentNames? (Files.names path).reverse with
  | none => (files, .ok ())
  | some parent =>
    match files.makeDirectories parent with
    | (made, .error e) => (made, .error (.directory (Files.ofReversed parent) e))
    | (made, .ok _) => (made, .ok ())

/-- Writes a text to the file at a path and makes the directories that lead there, which stay if the
file cannot be written. -/
def writeFile (files : Files.FileSystem) (path text : String) :
    Files.FileSystem × Except RunError Unit :=
  match makeParents files path with
  | (made, .error e) => (made, .error e)
  | (made, .ok _) =>
    match made.write path text with
    | .error e => (made, .error (.output path e))
    | .ok written => (written, .ok ())

/-- What a run comes to that has reported the lines `stderr` and puts out a text, and reports `last`
lines when that is done. -/
def putOut (files : Files.FileSystem) (out : Option String) (text : String)
    (stderr last : List String) (passed : Bool) : Outcome :=
  match out with
  | none => ⟨.ok passed, text ++ "\n", stderr ++ last, none, files⟩
  | some path =>
    match writeFile files path text with
    | (files, .error e) => ⟨.error e, "", stderr, none, files⟩
    | (files, .ok _) => ⟨.ok passed, "", stderr ++ last, some (path, text), files⟩

/-- Writes shapes. -/
def runShapes (files : Files.FileSystem) (names : List String) (out : Option String) : Outcome :=
  match RecordShape.selection names with
  | .error name => ⟨.error (.unknownRecord name), "", [], none, files⟩
  | .ok selected => putOut files out (RecordShape.view selected).pretty [] [] true

variable [Filter.Library]

/-- Checks inputs. -/
def runCheck (files : Files.FileSystem) (inputs : Check.Inputs) (normalize : Bool)
    (out : Option String) : Outcome :=
  match inputs.decode files with
  | .error failure => ⟨.error (.load failure), "", [], none, files⟩
  | .ok decoded =>
    let summary := Check.Summary.ofDecoded decoded
    let lines := decoded.map Check.Decoded.line
    let passed := summary.failed == 0
    if normalize then
      putOut files out (Check.normalized decoded).pretty lines [summary.line] passed
    else ⟨.ok passed, "", lines ++ [summary.line], none, files⟩

/-- Runs a command. -/
def run (files : Files.FileSystem) : Command → Outcome
  | .shapes names out => runShapes files names out
  | .check inputs normalize out => runCheck files inputs normalize out

end RecordCheck.Command
