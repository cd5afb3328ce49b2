set_option autoImplicit false

/-!
# JSON: paths

The way from a value to one of its nodes, as messages name it.
-/

namespace RecordCheck.Json

/-- One step into a value. -/
inductive Step where
  /-- to the member of a name -/
  | member (name : String)
  /-- to an item -/
  | index (i : Nat)
  /-- to a member whose name could not be read -/
  | unnamed
  deriving DecidableEq, Repr, Inhabited

/-- The steps from a value to a node, the outermost first. -/
abbrev Path : Type := List Step

/-- A step by itself. -/
def Step.text : Step → String
  | .member name => name
  | .index i => "[" ++ toString i ++ "]"
  | .unnamed => "?"

/-- A step after another one: a point goes before a name. -/
def Step.continued : Step → String
  | .index i => Step.text (.index i)
  | step => "." ++ step.text

/-- The text of a path; a point stands for the value itself. -/
def Path.text : Path → String
  | [] => "."
  | first :: rest => first.text ++ String.join (rest.map Step.continued)

end RecordCheck.Json
