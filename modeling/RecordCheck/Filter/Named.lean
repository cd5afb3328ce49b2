import RecordCheck.Filter.Library
set_option autoImplicit false

/-!
# Filter: a library of names

Where no other library is given, filters that read a clock or other surroundings and those on dates,
regular expressions and further functions of numbers are known by their names: a filter that calls
one is read and its names are checked, and it stops at the call.
-/

namespace RecordCheck.Filter.Library

/-- The names that are known for each number of arguments. -/
def names (arity : Nat) : List String :=
  match arity with
  | 0 =>
    ["now", "env", "input", "inputs", "debug", "stderr", "halt", "halt_error",
     "todate", "fromdate", "todateiso8601", "fromdateiso8601", "gmtime", "localtime", "mktime",
     "isinfinite", "isfinite", "isnormal", "finites", "normals", "combinations",
     "exp", "exp2", "exp10", "expm1", "log", "log2", "log10", "log1p", "logb", "ilogb", "cbrt",
     "sin", "cos", "tan", "asin", "acos", "atan", "sinh", "cosh", "tanh", "asinh", "acosh", "atanh",
     "trunc", "rint", "nearbyint", "significand", "frexp", "modf",
     "gamma", "lgamma", "tgamma", "lgamma_r", "j0", "j1", "y0", "y1"]
  | 1 =>
    ["debug", "halt", "halt_error", "strftime", "strptime", "strflocaltime",
     "test", "match", "capture", "scan", "splits", "bsearch", "combinations"]
  | 2 =>
    ["test", "match", "capture", "scan", "split", "splits", "sub", "gsub",
     "pow", "atan2", "fmin", "fmax", "fmod", "fdim", "copysign", "drem", "ldexp", "scalb",
     "scalbln", "nextafter", "nexttoward"]
  | 3 => ["sub", "gsub", "fma"]
  | _ => []

instance : Library where
  provides name arity := (names arity).contains name
  run _ _ name _ _ := .stop (.unavailable name)
  update _ _ _ name _ _ _ := .stop (.unavailable name)
  value? _ := none

end RecordCheck.Filter.Library
