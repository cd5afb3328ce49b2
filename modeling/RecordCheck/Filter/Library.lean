import RecordCheck.Filter.Place
import RecordCheck.Filter.Scope
set_option autoImplicit false

/-!
# Filter: libraries

Behind the filters that are defined here a filter may use those of a library: dates, regular
expressions, further functions of numbers, and what a run is given by its surroundings, such as the
time.  All that runs a filter takes the library as given, and nothing is assumed of it but that it
is a function.
-/

namespace RecordCheck.Filter

/-- Runs a filter in a scope. -/
abbrev Runner : Type := Scope → Term → Value → Results Value

/-- Changes the nodes that a filter selects in a scope. -/
abbrev Updater : Type := Scope → Term → Value.Change → Value.Change

/-- Further filters and variables. -/
class Library where
  /-- there is a filter of this name with this number of arguments -/
  provides : String → Nat → Bool
  /-- the outputs of a call; its arguments are filters in the scope of the call -/
  run : Runner → Scope → String → List Term → Value → Results Value
  /-- a value with the nodes that a call selects changed -/
  update : Runner → Updater → Scope → String → List Term → Value.Change → Value.Change
  /-- the value of a variable that is bound everywhere -/
  value? : String → Option Value

end RecordCheck.Filter
