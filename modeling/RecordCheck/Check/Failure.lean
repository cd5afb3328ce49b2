import RecordCheck.Files.Tree
import RecordCheck.Files.Pattern
import RecordCheck.Json.Fault
import RecordCheck.Filter.Run
import RecordCheck.Text.Quoted
set_option autoImplicit false

/-!
# Check: why inputs cannot be loaded
-/

namespace RecordCheck.Check

/-- Why inputs cannot be loaded. -/
inductive LoadFailure where
  | invalidPattern (pattern : String) (error : Files.PatternError)
  | noMatches (pattern : String)
  | unreadable (path : String) (error : Files.FileError)
  /-- a file, or one of its lines, is not JSON -/
  | notJson (path : String) (line : Option Nat) (error : Json.SyntaxError) (place : Json.Place)
  | nothingSelected (path pointer : String)
  | filter (failure : Filter.Failure)
  deriving Repr, Inhabited

namespace LoadFailure

/-- How a message shows the number of a line. -/
def lineText : Option Nat → String
  | some n => ":" ++ toString n
  | none => ""

/-- The message of what a failure comes from, where it comes from another. -/
def sourceMessage? : LoadFailure → Option String
  | .invalidPattern _ error => some error.message
  | .unreadable _ error => some error.message
  | .notJson _ _ error place => some (error.message ++ place.suffix)
  | _ => none

/-- The message of a failure. -/
def message : LoadFailure → String
  | .invalidPattern pattern error =>
    "invalid glob pattern " ++ Text.quoted pattern ++ ": " ++ error.message
  | .noMatches pattern => "glob pattern matched no files: " ++ pattern
  | .unreadable path error => "failed to read " ++ path ++ ": " ++ error.message
  | .notJson path line error place =>
    "failed to parse JSON (" ++ path ++ lineText line ++ "): " ++ error.message ++ place.suffix
  | .nothingSelected path pointer =>
    "JSON pointer " ++ Text.quoted pointer ++ " selects nothing in " ++ path
  | .filter failure => "jq: " ++ failure.stage

/-- The message of a failure, followed by that of its source. -/
def fullMessage (failure : LoadFailure) : String :=
  match failure.sourceMessage? with
  | some source => failure.message ++ ": " ++ source
  | none => failure.message

end LoadFailure
end RecordCheck.Check
