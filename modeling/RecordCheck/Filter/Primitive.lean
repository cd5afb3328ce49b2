import RecordCheck.Filter.Format
import RecordCheck.Filter.Spelled
set_option autoImplicit false

/-!
# Filter: primitives

The filters that are given by functions on the value and on values for their arguments, and those
that sort a list by keys.
-/

namespace RecordCheck.Filter

namespace Value

/-- The names of the members, or the numbers of the items. -/
def keysInOrder : Value → Checked (List Value)
  | .array items => .ok ((List.range items.length).map fun (i : Nat) => .integer i)
  | .object members => .ok (members.map fun m => .text m.1)
  | v => .error (.noKeys v)

/-- The length of a value: of a number, its magnitude. -/
def length : Value → Checked Value
  | .null => .ok (.integer 0)
  | .bool b => .error (.noLength (.bool b))
  | .integer n => .ok (.integer n.natAbs)
  | .float x => .ok (.float (Binary64.magnitude x))
  | .number _ x => .ok (.float (Binary64.magnitude x))
  | .text s => .ok (.integer s.length)
  | .array items => .ok (.integer items.length)
  | .object members => .ok (.integer members.length)

/-- The value has a part of this name or number. -/
def has (v key : Value) : Checked Value :=
  match v, key with
  | .array items, .integer n =>
    if 0 ≤ n then .ok (.bool (n < items.length)) else .error (.cannotIndex v key)
  | .object members, .text name => .ok (.bool (Table.find? name members).isSome)
  | _, _ => .error (.cannotIndex v key)

/-- The characters of one text stand together in another. -/
def isInfixOf (part : List Char) : List Char → Bool
  | [] => part.isEmpty
  | c :: rest => part.isPrefixOf (c :: rest) || isInfixOf part rest

mutual

/-- One value is in another: a text is part of it, every item is in some item, every member is in
the one of its name; all else has to be equal. -/
def contains (v : Value) : Value → Bool
  | .text part => match v with
    | .text s => isInfixOf part.toList s.toList
    | _ => false
  | .array parts => match v with
    | .array items => containsItems items parts
    | _ => false
  | .object parts => match v with
    | .object members => containsMembers members parts
    | _ => false
  | .null => equal v .null
  | .bool b => equal v (.bool b)
  | .integer n => equal v (.integer n)
  | .float x => equal v (.float x)
  | .number spelling x => equal v (.number spelling x)

/-- Every part is in some item. -/
def containsItems (items : List Value) : List Value → Bool
  | [] => true
  | part :: parts => items.any (fun item => contains item part) && containsItems items parts

/-- Every part is in the member of its name. -/
def containsMembers (members : List (String × Value)) : List (String × Value) → Bool
  | [] => true
  | (name, part) :: parts =>
    (match Table.find? name members with
      | some content => contains content part
      | none => false) && containsMembers members parts

end

/-- The places at which a list stands in another. -/
def placesOf {α : Type} (same : List α → Bool) (i : Nat) : List α → List Value
  | [] => []
  | x :: rest =>
    if same (x :: rest) then .integer i :: placesOf same (i + 1) rest
    else placesOf same (i + 1) rest

/-- A list of values begins with another. -/
def beginsWith : List Value → List Value → Bool
  | _, [] => true
  | [], _ => false
  | x :: xs, y :: ys => equal x y && beginsWith xs ys

/-- The places of a part in a text or an array. -/
def indices (v part : Value) : Checked Value :=
  match v, part with
  | .text s, .text part =>
    if part.isEmpty then .ok (.array [])
    else .ok (.array (placesOf (fun cs => part.toList.isPrefixOf cs) 0 s.toList))
  | .array items, .array parts =>
    if parts.isEmpty then .ok (.array [])
    else .ok (.array (placesOf (fun xs => beginsWith xs parts) 0 items))
  | .array items, x =>
    .ok (.array (placesOf (fun xs => match xs with
      | y :: _ => equal y x
      | [] => false) 0 items))
  | _, _ => .error (.cannotIndex v part)

/-- The greatest and the least integer to which a double is rounded. -/
def clamped (n : Int) : Int := max (-(twoTo 63)) (min (twoTo 63 - 1) n)

/-- How a double is rounded to an integer. -/
inductive Rounding where
  | down
  | up
  /-- to the nearest, and away from zero of two -/
  | nearest
  deriving DecidableEq, Repr, Inhabited

/-- The integer next to a magnitude `whole + part / unit` with a sign. -/
def Rounding.apply (how : Rounding) (negative : Bool) (whole part unit : Nat) : Int :=
  let away := match how with
    | .down => negative && 0 < part
    | .up => !negative && 0 < part
    | .nearest => unit ≤ 2 * part
  let magnitude : Int := if away then whole + 1 else whole
  if negative then -magnitude else magnitude

/-- A double as an integer of 64 bits; what is not a number counts as zero. -/
def roundedFloat (how : Rounding) (x : Float) : Int :=
  match Binary64.Datum.ofFloat x with
  | .nan => 0
  | .infinite negative => if negative then clamped (-(twoTo 64)) else clamped (twoTo 64)
  | .finite negative significand exponent =>
    let unit := twoTo (-exponent).toNat
    let scaled := significand * twoTo exponent.toNat
    clamped (how.apply negative (scaled / unit) (scaled % unit) unit)

/-- A number as an integer. -/
def rounded (how : Rounding) (v : Value) : Checked Value :=
  match v with
  | .integer n => .ok (.integer n)
  | v =>
    match v.toFloat? with
    | some x => .ok (.integer (roundedFloat how x))
    | none => .error (.cannotUse v .number)

/-- A function on doubles. -/
def onFloat (f : Float → Float) (v : Value) : Checked Value :=
  match v.toFloat? with
  | some x => .ok (.float (f x))
  | none => .error (.cannotUse v .number)

/-- A function on texts. -/
def onText (f : String → Value) (v : Value) : Checked Value := (string? v).map f

/-- A function on two texts. -/
def onTexts (f : String → String → Value) (v w : Value) : Checked Value :=
  match string? v with
  | .error p => .error p
  | .ok s => (string? w).map (f s)

/-- The character of a code. -/
def character? (v : Value) : Checked Char :=
  match integer? v with
  | .error p => .error p
  | .ok n =>
    if n < 0 ∨ twoTo 32 ≤ n then
      .error (.raised (.text "out of range integral type conversion attempted"))
    else if h : n.toNat.isValidChar then .ok (Char.ofNatAux n.toNat h)
    else .error (.notCharacter n)

/-- The text of character codes. -/
def implode (v : Value) : Checked Value :=
  match items? v with
  | .error p => .error p
  | .ok items => (items.mapM character?).map fun cs => .text (String.ofList cs)

/-- The value that a text writes. -/
def ofText (v : Value) : Checked Value :=
  match string? v with
  | .error p => .error p
  | .ok s => match parse s with
    | .ok v => .ok v
    | .error e => .error (.notJson s e.message)

/-- A number, or the one that a text writes. -/
def toNumber (v : Value) : Checked Value :=
  match v with
  | .text _ =>
    match ofText v with
    | .ok w => if w.isNumber then .ok w else .error (.cannotUse w .number)
    | .error p => .error p
  | v => if v.isNumber then .ok v else .error (.cannotUse v .number)

mutual

/-- The ways to all nodes of a value but itself, each as an array of names and numbers; `way` leads
to the value, its last step first. -/
def paths (way : List Value) : Value → List Value
  | .array items => itemPaths way 0 items
  | .object members => memberPaths way members
  | _ => []

/-- The ways to items and their nodes. -/
def itemPaths (way : List Value) (i : Nat) : List Value → List Value
  | [] => []
  | item :: rest =>
    let here : List Value := .integer i :: way
    .array here.reverse :: (paths here item ++ itemPaths way (i + 1) rest)

/-- The ways to members and their nodes. -/
def memberPaths (way : List Value) : List (String × Value) → List Value
  | [] => []
  | (name, content) :: rest =>
    let here : List Value := .text name :: way
    .array here.reverse :: (paths here content ++ memberPaths way rest)

end

mutual

/-- A value and all nodes in it. -/
def nodes : Value → List Value
  | .array items => .array items :: itemNodes items
  | .object members => .object members :: memberNodes members
  | .null => [.null]
  | .bool b => [.bool b]
  | .integer n => [.integer n]
  | .float x => [.float x]
  | .number spelling x => [.number spelling x]
  | .text s => [.text s]

/-- All nodes in a list of items. -/
def itemNodes : List Value → List Value
  | [] => []
  | item :: rest => nodes item ++ itemNodes rest

/-- All nodes in a list of members. -/
def memberNodes : List (String × Value) → List Value
  | [] => []
  | (_, content) :: rest => nodes content ++ memberNodes rest

end

/-- The numbers from one on, by a step, as long as they have not passed a bound. -/
def range (stop step : Value) : (rounds : Nat) → Value → Results Value
  | 0, _ => .stop .tooDeep
  | rounds + 1, v =>
    let goesOn : Bool := match order step (.integer 0) with
      | .gt => order v stop == .lt
      | .lt => order v stop == .gt
      | .eq => !equal v stop
    if goesOn then
      .item (.ok v) fun _ => match calculate .add v step with
        | .ok w => range stop step rounds w
        | .error p => .stop (.problem p)
    else .done

end Value

namespace Primitive

/-- How many numbers a range may have. -/
def rangeRounds : Nat := 1000000000

/-- A primitive without arguments. -/
def plain? (name : String) : Option (Value → Checked Value) :=
  match name with
  | "null" => some fun _ => .ok .null
  | "true" => some fun _ => .ok (.bool true)
  | "false" => some fun _ => .ok (.bool false)
  | "nan" => some fun _ => .ok (.float Binary64.notNumber)
  | "infinite" => some fun _ => .ok (.float (Binary64.infinity false))
  | "error" => some fun v => .error (.raised v)
  | "length" => some Value.length
  | "utf8bytelength" => some (Value.onText fun s => .integer s.utf8ByteSize)
  | "keys_unsorted" => some fun v => v.keysInOrder.map .array
  | "keys" => some fun v =>
    v.keysInOrder.map fun ks => .array (ks.mergeSort fun k k' => k.order k' != .gt)
  | "reverse" => some fun v => v.items?.map fun items => .array items.reverse
  | "type" => some fun v => .ok (.text v.typeName)
  | "tostring" => some fun v => .ok (.text v.display)
  | "tojson" => some fun v => .ok (.text v.render)
  | "fromjson" => some Value.ofText
  | "tonumber" => some Value.toNumber
  | "ascii_downcase" => some (Value.onText fun s => .text (s.map Char.toLower))
  | "ascii_upcase" => some (Value.onText fun s => .text (s.map Char.toUpper))
  | "explode" => some (Value.onText fun s => .array (s.toList.map fun c => .integer c.toNat))
  | "implode" => some Value.implode
  | "trim" => some (Value.onText fun s => .text (String.ofList (Text.trim s.toList)))
  | "ltrim" => some (Value.onText fun s => .text (String.ofList (Text.trimStart s.toList)))
  | "rtrim" => some (Value.onText fun s => .text (String.ofList (Text.trimEnd s.toList)))
  | "floor" => some (Value.rounded .down)
  | "ceil" => some (Value.rounded .up)
  | "round" => some (Value.rounded .nearest)
  | "fabs" => some (Value.onFloat Binary64.magnitude)
  | "sqrt" => some (Value.onFloat Float.sqrt)
  | _ => Format.ofName? name

/-- A primitive with one argument. -/
def unary? (name : String) : Option (Value → Value → Checked Value) :=
  match name with
  | "has" => some Value.has
  | "contains" => some fun v part => .ok (.bool (v.contains part))
  | "split" => some (Value.onTexts fun s separator => .array (Value.split s separator))
  | "startswith" => some (Value.onTexts fun s start => .bool (start.toList.isPrefixOf s.toList))
  | "endswith" => some (Value.onTexts fun s tail => .bool (tail.toList.isSuffixOf s.toList))
  | "ltrimstr" => some (Value.onTexts fun s start =>
    if start.toList.isPrefixOf s.toList then .text (String.ofList (s.toList.drop start.length))
    else .text s)
  | "rtrimstr" => some (Value.onTexts fun s tail =>
    if tail.toList.isSuffixOf s.toList then
      .text (String.ofList (s.toList.take (s.length - tail.length)))
    else .text s)
  | "indices" => some Value.indices
  | _ => none

/-- The outputs of a primitive on values for its arguments, if there is such a primitive. -/
def run? (name : String) (arguments : List Value) (v : Value) : Option (Results Value) :=
  match arguments with
  | [] =>
    if name = "paths" then some (.ofList (Value.paths [] v))
    else (plain? name).map fun f => .checked (f v)
  | [a] => (unary? name).map fun f => .checked (f v a)
  | [a, b, c] => if name = "range" then some (Value.range b c rangeRounds a) else none
  | _ => none

/-- There is a primitive of this name with this number of arguments. -/
def exists? (name : String) (arity : Nat) : Bool :=
  match arity with
  | 0 => name = "paths" || (plain? name).isSome
  | 1 => (unary? name).isSome
  | 3 => name = "range"
  | _ => false

/-- Filters that sort or choose by the outputs of another filter. -/
inductive Sorting where
  | sort
  | group
  | least
  | greatest
  deriving DecidableEq, Repr, Inhabited

/-- The sorting filter of a name. -/
def Sorting.ofName? (name : String) : Option Sorting :=
  match name with
  | "sort_by" => some .sort
  | "group_by" => some .group
  | "min_by" => some .least
  | "max_by" => some .greatest
  | _ => none

/-- An item with the keys it is sorted by. -/
abbrev Keyed : Type := List Value × Value

/-- Neighbours with equal keys in groups. -/
def groups : List Keyed → List (List Keyed)
  | [] => []
  | x :: rest =>
    match groups rest with
    | [] => [[x]]
    | [] :: others => [x] :: others
    | (y :: group) :: others =>
      if Value.equalLists x.1 y.1 then (x :: y :: group) :: others
      else [x] :: (y :: group) :: others

/-- The item that is chosen of two. -/
def choose (greatest : Bool) (best next : Keyed) : Keyed :=
  match Value.orderLists next.1 best.1 with
  | .lt => if greatest then best else next
  | .eq => if greatest then next else best
  | .gt => if greatest then next else best

/-- What a sorting filter makes of items with keys.  Items with equal keys keep their order; of the
least the first one is chosen, of the greatest the last one. -/
def Sorting.apply (how : Sorting) (items : List Keyed) : Value :=
  let sorted := items.mergeSort fun x y => Value.orderLists x.1 y.1 != .gt
  match how with
  | .sort => .array (sorted.map Prod.snd)
  | .group => .array ((groups sorted).map fun g => .array (g.map Prod.snd))
  | .least => match items with
    | [] => .null
    | x :: rest => (rest.foldl (choose false) x).2
  | .greatest => match items with
    | [] => .null
    | x :: rest => (rest.foldl (choose true) x).2

end Primitive
end RecordCheck.Filter
