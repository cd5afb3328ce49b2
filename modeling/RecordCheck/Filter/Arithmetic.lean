import RecordCheck.Filter.Order
import RecordCheck.Filter.Problem
set_option autoImplicit false

/-!
# Filter: arithmetic

The operators on two values.  Two integers stay integers but for the quotient; any other pair of
numbers is computed in doubles.  Texts, arrays and objects have operators of their own.
-/

namespace RecordCheck.Filter.Value

/-- The sign, significand and exponent of a finite double. -/
def finite? (x : Float) : Option (Bool × Nat × Int) :=
  match Binary64.Datum.ofFloat x with
  | .finite negative significand exponent => some (negative, significand, exponent)
  | _ => none

/-- The remainder of doubles: exact, with the sign of the left one. -/
def floatRemainder (x y : Float) : Float :=
  match finite? x, finite? y with
  | some (negative, m, e), some (_, m', e') =>
    if m' = 0 then Binary64.notNumber
    else
      let low := min e e'
      let scaled := m * twoTo (e - low).toNat % (m' * twoTo (e' - low).toNat)
      if 0 ≤ low then Binary64.nearest negative (scaled * twoTo low.toNat) 1
      else Binary64.nearest negative scaled (twoTo (-low).toNat)
  | some _, none => if y.isNaN then Binary64.notNumber else x
  | none, _ => Binary64.notNumber

/-- The pieces of a text between separators, with the characters of the present piece, the last one
first. -/
def splitAt (separator : List Char) (piece : List Char) : (rounds : Nat) → List Char → List String
  | 0, _ => [String.ofList piece.reverse]
  | _ + 1, [] => [String.ofList piece.reverse]
  | rounds + 1, c :: rest =>
    if separator.isPrefixOf (c :: rest) then
      String.ofList piece.reverse ::
        splitAt separator [] rounds ((c :: rest).drop separator.length)
    else splitAt separator (c :: piece) rounds rest

/-- The pieces of a text between separators; an empty separator divides all characters. -/
def split (text separator : String) : List Value :=
  let chars := text.toList
  if chars.isEmpty then []
  else if separator.isEmpty then chars.map fun c => .text c.toString
  else (splitAt separator.toList [] chars.length chars).map .text

/-- A text several times over; none gives null. -/
def repeated (s : String) (n : Int) : Value :=
  if n ≤ 0 then .null else .text (String.join (List.replicate n.toNat s))

mutual

/-- Two objects as one: where both have an object under a name, these are merged too, else the right
one wins. -/
def merge (left : List (String × Value)) : List (String × Value) → List (String × Value)
  | [] => left
  | (name, content) :: rest =>
    merge (Table.insert name (mergeContent (Table.find? name left) content) left) rest

/-- The content under a name that both or only the right one has. -/
def mergeContent (old : Option Value) : Value → Value
  | .object members =>
    match old with
    | some (.object before) => .object (merge before members)
    | _ => .object members
  | .null => .null
  | .bool b => .bool b
  | .integer n => .integer n
  | .float x => .float x
  | .number spelling x => .number spelling x
  | .text s => .text s
  | .array items => .array items

end

/-- The members of both objects; the right one wins. -/
def extended (left right : List (String × Value)) : List (String × Value) :=
  right.foldl (fun ms m => Table.insert m.1 m.2 ms) left

/-- The operator on doubles. -/
def onFloats (op : MathOp) (x y : Float) : Float :=
  match op with
  | .add => x + y
  | .subtract => x - y
  | .multiply => x * y
  | .divide => x / y
  | .remainder => floatRemainder x y

/-- The operator on integers. -/
def onIntegers (op : MathOp) (n m : Int) : Option Value :=
  match op with
  | .add => some (.integer (n + m))
  | .subtract => some (.integer (n - m))
  | .multiply => some (.integer (n * m))
  | .divide => some (.float (Binary64.ofInt n / Binary64.ofInt m))
  | .remainder => if m = 0 then none else some (.integer (n.tmod m))

/-- The operator on values that are not both numbers. -/
def onOthers (op : MathOp) (v w : Value) : Option Value :=
  match op, v, w with
  | .add, .null, w => some w
  | .add, v, .null => some v
  | .add, .text a, .text b => some (.text (a ++ b))
  | .add, .array xs, .array ys => some (.array (xs ++ ys))
  | .add, .object ms, .object ns => some (.object (extended ms ns))
  | .subtract, .array xs, .array ys => some (.array (xs.filter fun x => !ys.any (equal x)))
  | .multiply, .text s, .integer n => some (repeated s n)
  | .multiply, .integer n, .text s => some (repeated s n)
  | .multiply, .object ms, .object ns => some (.object (merge ms ns))
  | .divide, .text a, .text b => some (.array (split a b))
  | _, _, _ => none

/-- The operator on two values. -/
def calculate (op : MathOp) (v w : Value) : Checked Value :=
  let result := match v, w with
    | .integer n, .integer m => onIntegers op n m
    | _, _ =>
      match v.toFloat?, w.toFloat? with
      | some x, some y => some (.float (onFloats op x y))
      | _, _ => onOthers op v w
  match result with
  | some v => .ok v
  | none => .error (.cannotCalculate op v w)

/-- The value with its sign changed. -/
def negated : Value → Checked Value
  | .integer n => .ok (.integer (-n))
  | .float x => .ok (.float (-x))
  | .number _ x => .ok (.float (-x))
  | v => .error (.cannotUse v .number)

/-- The comparison of two values. -/
def compares (op : CompareOp) (v w : Value) : Bool :=
  match op with
  | .less => order v w == .lt
  | .lessEqual => order v w != .gt
  | .greater => order v w == .gt
  | .greaterEqual => order v w != .lt
  | .equal => equal v w
  | .notEqual => !equal v w

end RecordCheck.Filter.Value
