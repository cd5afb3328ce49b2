import RecordCheck.Json.Basic
import RecordCheck.Powers
import RecordCheck.Text.Pieces
set_option autoImplicit false

/-!
# JSON: pointers

A pointer selects a node: it is empty, or each step stands behind a slash.  In a step `~1` stands
for a slash and `~0` for a tilde.  An item is named by its number, without sign and leading zeros.
-/

namespace RecordCheck.Json

/-- The text in which a pair `~d` stands for a character. -/
def replacePair (d : Char) (by' : Char) : List Char → List Char
  | [] => []
  | [c] => [c]
  | c :: c' :: rest =>
    if c = '~' ∧ c' = d then by' :: replacePair d by' rest
    else c :: replacePair d by' (c' :: rest)

/-- The name that a step writes: `~1` is read before `~0`. -/
def stepName (step : List Char) : List Char := replacePair '0' '~' (replacePair '1' '/' step)

/-- The number of an item that a name writes. -/
def itemNumber? (name : List Char) : Option Nat :=
  match name with
  | [] => none
  | first :: rest =>
    if first = '0' ∧ !rest.isEmpty then none
    else if name.all fun c => '0' ≤ c ∧ c ≤ '9' then
      let n := Nat.ofDigitChars 10 name 0
      if n < twoTo 64 then some n else none
    else none

/-- The node that steps lead to. -/
def follow? : List (List Char) → Json → Option Json
  | [], x => some x
  | step :: rest, x =>
    let name := stepName step
    let next := match x with
      | .object members => Table.find? (String.ofList name) members
      | .array items => (itemNumber? name).bind fun i => items[i]?
      | _ => none
    match next with
    | some node => follow? rest node
    | none => none

/-- The node that a pointer selects. -/
def select? (pointer : String) (x : Json) : Option Json :=
  match pointer.toList with
  | [] => some x
  | c :: rest => if c = '/' then follow? (Text.pieces '/' rest) x else none

end RecordCheck.Json
