import RecordCheck.Filter.Eval
import RecordCheck.Filter.Names
set_option autoImplicit false

/-!
# Filter: running a filter on a document

A filter is read, its names are checked, and it is run on a JSON value.  Each output is written as
JSON text and read again, so what it writes has to be JSON: a number spelled out of range or too
deep a nesting is refused.  One failure discards all outputs.
-/

namespace RecordCheck.Filter

/-- Why a filter gives no documents. -/
inductive Failure where
  /-- the text is no filter -/
  | unreadable
  /-- a name in the filter stands for nothing -/
  | undefined
  /-- the filter stopped on the document -/
  | stopped (s : Stop)
  /-- an output is not JSON; the message is that of reading it -/
  | invalidOutput (message : String)
  deriving Repr, Inhabited

/-- The stage at which a filter failed. -/
def Failure.stage : Failure → String
  | .unreadable => "parse error"
  | .undefined => "undefined"
  | .stopped _ => "runtime"
  | .invalidOutput message => "filter produced invalid JSON: " ++ message

/-- How deep filters and calls may nest. -/
def depthLimit : Nat := 1000000

/-- The document that an output writes. -/
def document (v : Value) : Except Failure Json :=
  let text := v.render
  match Json.parse text with
  | .ok x => .ok x
  | .error fault => .error (.invalidOutput (fault.message (Json.bytesOf text)))

/-- The documents of a stream of outputs, behind those read, the last one first. -/
def documents (read : List Json) : Results Value → Except Failure (List Json)
  | .done => .ok read.reverse
  | .item (.error s) _ => .error (.stopped s)
  | .item (.ok v) rest =>
    match document v with
    | .error failure => .error failure
    | .ok x => documents (x :: read) (rest ())

variable [Library]

/-- The filter of a text, if it can be run. -/
def compile (text : String) : Except Failure Term :=
  match Grammar.parse? text with
  | none => .error .unreadable
  | some t => if Names.ofPrelude.known t then .ok t else .error .undefined

/-- The documents that a filter makes of a document. -/
def run (text : String) (input : Json) : Except Failure (List Json) :=
  match compile text with
  | .error failure => .error failure
  | .ok t => documents [] (eval depthLimit Prelude.scope t (Value.ofJson input))

end RecordCheck.Filter
