import RecordCheck.Filter.Syntax
import RecordCheck.Filter.Value
set_option autoImplicit false

/-!
# Filter: problems

Why a filter stops on a value.
-/

namespace RecordCheck.Filter

/-- What a value should have been. -/
inductive Wanted where
  | integer
  | number
  | string
  | array
  | object
  /-- an array or an object -/
  | iterable
  /-- an array or a text -/
  | rangeable
  deriving DecidableEq, Repr, Inhabited

/-- How a message names what a value should have been. -/
def Wanted.message : Wanted → String
  | .integer => "integer"
  | .number => "number"
  | .string => "string"
  | .array => "array"
  | .object => "object"
  | .iterable => "iterable (array or object)"
  | .rangeable => "rangeable (array or string)"

/-- The sign of an operator. -/
def MathOp.sign : MathOp → String
  | .add => "+"
  | .subtract => "-"
  | .multiply => "*"
  | .divide => "/"
  | .remainder => "%"

/-- Why a filter stops. -/
inductive Problem where
  /-- the filter raised a value -/
  | raised (v : Value)
  | cannotCalculate (op : MathOp) (left right : Value)
  | cannotUse (v : Value) (wanted : Wanted)
  | cannotIndex (v index : Value)
  | outOfBounds (index : Value)
  | noLength (v : Value)
  | noKeys (v : Value)
  | notCharacter (code : Int)
  | notJson (text : String) (reason : String)
  | noPath
  | cannotFormat (v : Value)
  deriving Repr, Inhabited

/-- The value that a handler of the problem is given. -/
def Problem.payload : Problem → Value
  | .raised v => v
  | .cannotCalculate op left right =>
    .text ("cannot calculate " ++ left.render ++ " " ++ op.sign ++ " " ++ right.render)
  | .cannotUse v wanted => .text ("cannot use " ++ v.render ++ " as " ++ wanted.message)
  | .cannotIndex v index => .text ("cannot index " ++ v.render ++ " with " ++ index.render)
  | .outOfBounds index => .text ("index " ++ index.render ++ " is out of bounds")
  | .noLength v => .text (v.render ++ " has no length")
  | .noKeys v => .text (v.render ++ " has no keys")
  | .notCharacter code => .text ("cannot use " ++ toString code ++ " as character")
  | .notJson text reason => .text ("cannot parse " ++ text ++ " as JSON: " ++ reason)
  | .noPath => .text "invalid path expression"
  | .cannotFormat v => .text ("cannot format " ++ v.render)

/-- What ends a stream of outputs early. -/
inductive Stop where
  | problem (p : Problem)
  /-- a jump to the end of a label -/
  | jump (label : Nat)
  /-- the filter is nested too deep -/
  | tooDeep
  /-- a filter is called of which only the name is known -/
  | unavailable (name : String)
  deriving Repr, Inhabited

/-- A value, or why there is none. -/
abbrev Checked (α : Type) : Type := Except Problem α

end RecordCheck.Filter
