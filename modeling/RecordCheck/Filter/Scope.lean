import RecordCheck.Filter.Syntax
import RecordCheck.Filter.Value
set_option autoImplicit false

/-!
# Filter: scopes

What the names in a filter stand for: values, labels, definitions, and arguments.  An argument is a
filter together with the scope of the call it was given in.
-/

namespace RecordCheck.Filter

/-- The names that are known, the latest one outermost. -/
inductive Scope where
  | empty
  | value (name : String) (v : Value) (outer : Scope)
  | label (name : String) (mark : Nat) (outer : Scope)
  /-- a definition; it is known in its own body -/
  | definition (name : String) (parameters : List String) (body : Term) (outer : Scope)
  | argument (name : String) (t : Term) (home : Scope) (outer : Scope)

/-- What a call runs. -/
inductive Callee where
  | definition (parameters : List String) (body : Term) (home : Scope)
  | argument (t : Term) (home : Scope)

namespace Scope

/-- The value of a name. -/
def value? (name : String) : Scope → Option Value
  | .empty => none
  | .value n v outer => if n = name then some v else outer.value? name
  | .label _ _ outer => outer.value? name
  | .definition _ _ _ outer => outer.value? name
  | .argument _ _ _ outer => outer.value? name

/-- The mark of a label. -/
def label? (name : String) : Scope → Option Nat
  | .empty => none
  | .value _ _ outer => outer.label? name
  | .label n mark outer => if n = name then some mark else outer.label? name
  | .definition _ _ _ outer => outer.label? name
  | .argument _ _ _ outer => outer.label? name

/-- What a name with a number of arguments calls. -/
def callee? (name : String) (arity : Nat) : Scope → Option Callee
  | .empty => none
  | .value _ _ outer => outer.callee? name arity
  | .label _ _ outer => outer.callee? name arity
  | .definition n parameters body outer =>
    if n = name ∧ parameters.length = arity then
      some (.definition parameters body (.definition n parameters body outer))
    else outer.callee? name arity
  | .argument n t home outer =>
    if n = name ∧ arity = 0 then some (.argument t home) else outer.callee? name arity

/-- The scope behind the definitions that a filter begins with. -/
def ofDefinitions : Term → Scope → Scope
  | .define name parameters body rest, scope =>
    ofDefinitions rest (.definition name parameters body scope)
  | _, scope => scope

/-- The names and numbers of arguments that can be called. -/
def callable : Scope → List (String × Nat)
  | .empty => []
  | .value _ _ outer => outer.callable
  | .label _ _ outer => outer.callable
  | .definition name parameters _ outer => (name, parameters.length) :: outer.callable
  | .argument name _ _ outer => (name, 0) :: outer.callable

end Scope
end RecordCheck.Filter
