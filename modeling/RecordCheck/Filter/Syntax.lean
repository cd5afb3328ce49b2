set_option autoImplicit false

/-!
# Filter: syntax

A filter takes a value to any number of values.
-/

namespace RecordCheck.Filter

/-- Operators on two values. -/
inductive MathOp where
  | add
  | subtract
  | multiply
  | divide
  | remainder
  deriving DecidableEq, Repr, Inhabited

/-- Comparisons of two values. -/
inductive CompareOp where
  | less
  | lessEqual
  | greater
  | greaterEqual
  | equal
  | notEqual
  deriving DecidableEq, Repr, Inhabited

/-- How the nodes that a filter selects are changed. -/
inductive Assignment where
  /-- each becomes the result of a filter on the whole value -/
  | assign
  /-- each becomes the result of a filter on itself -/
  | update
  /-- each is combined with the result of a filter on the whole value -/
  | combine (op : MathOp)
  /-- each that is null or false becomes the result of a filter on the whole value -/
  | default
  deriving DecidableEq, Repr, Inhabited

/-- How a filter is run once for each output of another one. -/
inductive FoldKind where
  /-- the last state is the output -/
  | reduce
  /-- every state is an output -/
  | foreach
  deriving DecidableEq, Repr, Inhabited

mutual

/-- A filter. -/
inductive Term where
  | identity
  /-- the value and all nodes in it -/
  | recurse
  /-- a number as it is spelled -/
  | number (spelling : String)
  /-- a string; what is embedded in it is written in a format -/
  | string (format : Option String) (pieces : List Piece)
  | emptyArray
  | array (content : Term)
  | object (entries : List (Term × Term))
  | negate (operand : Term)
  | pipe (first second : Term)
  | bind (source : Term) (pattern : Pattern) (body : Term)
  | comma (first second : Term)
  /-- the outputs that are neither null nor false, or those of the other filter -/
  | alternative (first second : Term)
  | or (first second : Term)
  | and (first second : Term)
  | math (op : MathOp) (left right : Term)
  | compare (op : CompareOp) (left right : Term)
  | assign (how : Assignment) (target source : Term)
  | label (name : String) (body : Term)
  | break' (name : String)
  | fold (kind : FoldKind) (source : Term) (pattern : Pattern) (start update : Term)
    (project : Option Term)
  | tryCatch (body : Term) (handler : Option Term)
  | ifThenElse (condition yes no : Term)
  | define (name : String) (parameters : List String) (body rest : Term)
  | call (name : String) (arguments : List Term)
  | variable (name : String)
  | path (source : Term) (parts : List (Part × Bool))

/-- A piece of a string. -/
inductive Piece where
  | chars (s : String)
  | embedded (t : Term)

/-- One part of a path; whether it drops errors stands beside it. -/
inductive Part where
  /-- the member or item that a filter names -/
  | index (t : Term)
  /-- all members or items -/
  | each
  /-- the items or characters between two bounds -/
  | slice (start stop : Option Term)

/-- How the parts of a value are named. -/
inductive Pattern where
  | variable (name : String)
  | array (items : List Pattern)
  | object (entries : List (Term × Pattern))

end

instance : Inhabited Term := ⟨.identity⟩

end RecordCheck.Filter
