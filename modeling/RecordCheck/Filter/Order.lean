import RecordCheck.Filter.Value
set_option autoImplicit false

/-!
# Filter: equality and order

Values of different types are ordered null, false, true, numbers, texts, arrays, objects.  Objects
are compared by their sorted names first and then by the contents in the order of the names; the
order of members does not matter.  What is not a number is below every number, itself included, and
equal to none.
-/

namespace RecordCheck.Filter.Value

mutual

/-- The value with the members of every object sorted by name. -/
def sorted : Value → Value
  | .array items => .array (sortedItems items)
  | .object members => .object ((sortedMembers members).mergeSort fun m m' => !(m'.1 < m.1))
  | .null => .null
  | .bool b => .bool b
  | .integer n => .integer n
  | .float x => .float x
  | .number spelling x => .number spelling x
  | .text s => .text s

/-- The items of an array, each with sorted members. -/
def sortedItems : List Value → List Value
  | [] => []
  | item :: rest => sorted item :: sortedItems rest

/-- The contents of members, each with sorted members. -/
def sortedMembers : List (String × Value) → List (String × Value)
  | [] => []
  | (name, content) :: rest => (name, sorted content) :: sortedMembers rest

end

/-- The order of doubles. -/
def compareFloats (x y : Float) : Ordering :=
  if x == y then .eq
  else if x.isNaN then .lt
  else if y.isNaN then .gt
  else if x < y then .lt
  else .gt

/-- The order of numbers, as far as both are numbers. -/
def compareNumbers (v w : Value) : Ordering :=
  match v, w with
  | .integer n, .integer m => compare n m
  | _, _ =>
    match v.toFloat?, w.toFloat? with
    | some x, some y => compareFloats x y
    | _, _ => .eq

/-- Two numbers are equal. -/
def equalNumbers (v w : Value) : Bool :=
  match v, w with
  | .integer n, .integer m => n == m
  | _, _ =>
    match v.toFloat?, w.toFloat? with
    | some x, some y => x == y
    | _, _ => false

/-- The place of a value's type in the order of types. -/
def rank : Value → Nat
  | .null => 0
  | .bool _ => 1
  | .integer _ => 2
  | .float _ => 2
  | .number _ _ => 2
  | .text _ => 3
  | .array _ => 4
  | .object _ => 5

/-- The order of lists of names. -/
def compareNames : List String → List String → Ordering
  | [], [] => .eq
  | [], _ => .lt
  | _, [] => .gt
  | a :: rest, b :: rest' => (compare a b).then (compareNames rest rest')

mutual

/-- The order of values with sorted members. -/
def compareSorted : Value → Value → Ordering
  | .bool a, .bool b => compare a b
  | .text a, .text b => compare a b
  | .array xs, .array ys => compareItems xs ys
  | .object ms, .object ns =>
    (compareNames (ms.map Prod.fst) (ns.map Prod.fst)).then (compareContents ms ns)
  | v, w => if v.rank = w.rank then compareNumbers v w else compare v.rank w.rank

/-- The order of lists of values. -/
def compareItems : List Value → List Value → Ordering
  | [], [] => .eq
  | [], _ => .lt
  | _, [] => .gt
  | x :: xs, y :: ys => (compareSorted x y).then (compareItems xs ys)

/-- The order of the contents of members. -/
def compareContents : List (String × Value) → List (String × Value) → Ordering
  | [], [] => .eq
  | [], _ => .lt
  | _, [] => .gt
  | (_, x) :: ms, (_, y) :: ns => (compareSorted x y).then (compareContents ms ns)

end

mutual

/-- Equality of values with sorted members. -/
def equalSorted : Value → Value → Bool
  | .null, .null => true
  | .bool a, .bool b => a == b
  | .text a, .text b => a == b
  | .array xs, .array ys => equalItems xs ys
  | .object ms, .object ns => equalMembers ms ns
  | v, w => equalNumbers v w

/-- Equality of lists of values. -/
def equalItems : List Value → List Value → Bool
  | [], [] => true
  | x :: xs, y :: ys => equalSorted x y && equalItems xs ys
  | _, _ => false

/-- Equality of lists of members. -/
def equalMembers : List (String × Value) → List (String × Value) → Bool
  | [], [] => true
  | (name, x) :: ms, (name', y) :: ns => name == name' && equalSorted x y && equalMembers ms ns
  | _, _ => false

end

/-- The order of values. -/
def order (v w : Value) : Ordering := compareSorted v.sorted w.sorted

/-- Two values are equal. -/
def equal (v w : Value) : Bool := equalSorted v.sorted w.sorted

/-- The order of lists of values. -/
def orderLists (vs ws : List Value) : Ordering := compareItems (sortedItems vs) (sortedItems ws)

/-- Two lists of values are equal. -/
def equalLists (vs ws : List Value) : Bool := equalItems (sortedItems vs) (sortedItems ws)

end RecordCheck.Filter.Value
