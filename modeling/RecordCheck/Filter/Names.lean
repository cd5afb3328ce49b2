import RecordCheck.Filter.Library
import RecordCheck.Filter.Prelude
import RecordCheck.Filter.Primitive
set_option autoImplicit false

/-!
# Filter: known names

A filter can run only if every name in it stands for something, here or in the library: calls with
their number of arguments, variables, labels and formats.
-/

namespace RecordCheck.Filter

/-- The names known at a place in a filter. -/
structure Names where
  calls : List (String × Nat)
  values : List String
  labels : List String
  deriving Repr, Inhabited

namespace Names

/-- Filters with arguments that are no primitives and no definitions. -/
def special (name : String) (arity : Nat) : Bool :=
  match arity with
  | 1 => name = "first" || (Primitive.Sorting.ofName? name).isSome
  | 2 => name = "limit" || name = "skip"
  | _ => false

variable [Library]

/-- A call is known. -/
def knowsCall (names : Names) (name : String) (arity : Nat) : Bool :=
  names.calls.contains (name, arity) || special name arity || Primitive.exists? name arity
    || Library.provides name arity

/-- A variable is known. -/
def knowsVariable (names : Names) (name : String) : Bool :=
  names.values.contains name || (Library.value? name).isSome

/-- The names with those of parameters. -/
def withParameters (names : Names) : List String → Names
  | [] => names
  | p :: rest =>
    let names := names.withParameters rest
    match p.toList with
    | '$' :: x => { names with values := String.ofList x :: names.values }
    | _ => { names with calls := (p, 0) :: names.calls }

mutual

/-- The variables of a pattern. -/
def ofPattern : Pattern → List String
  | .variable name => [name]
  | .array items => ofPatterns items
  | .object entries => ofEntries entries

/-- The variables of patterns. -/
def ofPatterns : List Pattern → List String
  | [] => []
  | p :: rest => ofPattern p ++ ofPatterns rest

/-- The variables of the entries of a pattern. -/
def ofEntries : List (Term × Pattern) → List String
  | [] => []
  | (_, p) :: rest => ofPattern p ++ ofEntries rest

end

/-- The names with the variables of a pattern. -/
def withPattern (names : Names) (p : Pattern) : Names :=
  { names with values := ofPattern p ++ names.values }

mutual

/-- All names in a filter are known. -/
def known (names : Names) : Term → Bool
  | .identity => true
  | .recurse => true
  | .number _ => true
  | .emptyArray => true
  | .string none pieces => knownPieces names pieces
  | .string (some format) pieces =>
    names.knowsCall format 0 && knownPieces names pieces
  | .array t => known names t
  | .object entries => knownEntries names entries
  | .negate t => known names t
  | .pipe a b => known names a && known names b
  | .bind source p body =>
    known names source && knownPattern names p && known (names.withPattern p) body
  | .comma a b => known names a && known names b
  | .alternative a b => known names a && known names b
  | .or a b => known names a && known names b
  | .and a b => known names a && known names b
  | .math _ a b => known names a && known names b
  | .compare _ a b => known names a && known names b
  | .assign _ a b => known names a && known names b
  | .label name body => known { names with labels := name :: names.labels } body
  | .break' name => names.labels.contains name
  | .fold _ source p start update project =>
    known names source && knownPattern names p && known names start
      && known (names.withPattern p) update && knownOption (names.withPattern p) project
  | .tryCatch body handler => known names body && knownOption names handler
  | .ifThenElse c a b => known names c && known names a && known names b
  | .define name parameters body rest =>
    let names := { names with calls := (name, parameters.length) :: names.calls }
    known (names.withParameters parameters) body && known names rest
  | .call name arguments =>
    names.knowsCall name arguments.length && knownList names arguments
  | .variable name => names.knowsVariable name
  | .path source parts => known names source && knownParts names parts

/-- All names in an optional filter are known. -/
def knownOption (names : Names) : Option Term → Bool
  | none => true
  | some t => known names t

/-- All names in filters are known. -/
def knownList (names : Names) : List Term → Bool
  | [] => true
  | t :: rest => known names t && knownList names rest

/-- All names in the pieces of a string are known. -/
def knownPieces (names : Names) : List Piece → Bool
  | [] => true
  | p :: rest => knownPiece names p && knownPieces names rest

/-- All names in a piece of a string are known. -/
def knownPiece (names : Names) : Piece → Bool
  | .chars _ => true
  | .embedded t => known names t

/-- All names in the entries of an object are known. -/
def knownEntries (names : Names) : List (Term × Term) → Bool
  | [] => true
  | (a, b) :: rest => known names a && known names b && knownEntries names rest

/-- All names in a path are known. -/
def knownParts (names : Names) : List (Part × Bool) → Bool
  | [] => true
  | (p, _) :: rest => knownPart names p && knownParts names rest

/-- All names in a part of a path are known. -/
def knownPart (names : Names) : Part → Bool
  | .index t => known names t
  | .each => true
  | .slice start stop => knownOption names start && knownOption names stop

/-- All names that a pattern uses are known. -/
def knownPattern (names : Names) : Pattern → Bool
  | .variable _ => true
  | .array items => knownPatterns names items
  | .object entries => knownPatternEntries names entries

/-- All names that patterns use are known. -/
def knownPatterns (names : Names) : List Pattern → Bool
  | [] => true
  | p :: rest => knownPattern names p && knownPatterns names rest

/-- All names that the entries of a pattern use are known. -/
def knownPatternEntries (names : Names) : List (Term × Pattern) → Bool
  | [] => true
  | (t, p) :: rest => known names t && knownPattern names p && knownPatternEntries names rest

end

/-- The names of the prelude. -/
def ofPrelude : Names := ⟨Prelude.scope.callable, [], []⟩

end Names
end RecordCheck.Filter
