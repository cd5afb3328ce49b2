import RecordCheck.Filter.Arithmetic
import RecordCheck.Filter.Results
set_option autoImplicit false

/-!
# Filter: places in values

Looking at the parts of a value, and changing them.  A change is a function with any number of
outputs; a single part becomes the first of them and is removed if there is none, the items of an
array become all of them.  Removing a member moves the last one into its place.
-/

namespace RecordCheck.Filter.Value

/-- An integer. -/
def integer? : Value → Checked Int
  | .integer n => .ok n
  | v => .error (.cannotUse v .integer)

/-- A text. -/
def string? : Value → Checked String
  | .text s => .ok s
  | v => .error (.cannotUse v .string)

/-- An array. -/
def items? : Value → Checked (List Value)
  | .array items => .ok items
  | v => .error (.cannotUse v .array)

/-- The place of an item; negative numbers count from the end. -/
def position? (n : Int) (length : Nat) : Option Nat :=
  if 0 ≤ n then if n < length then some n.toNat else none
  else if 0 ≤ length + n then some (length + n).toNat else none

/-- A bound of a slice; negative numbers count from the end. -/
def bound (n : Int) (length : Nat) : Nat :=
  if 0 ≤ n then min n.toNat length else (length + n).toNat

/-- The part that an index names. -/
def at' (v index : Value) : Checked Value :=
  match v, index with
  | .array items, .integer n =>
    .ok (((position? n items.length).bind fun i => items[i]?).getD .null)
  | .object members, .text name => .ok ((Table.find? name members).getD .null)
  | .array _, _ => .error (.cannotIndex v index)
  | .object _, _ => .error (.cannotIndex v index)
  | _, _ => .error (.cannotUse v .iterable)

/-- The members or items of a value. -/
def each (v : Value) : Checked (List Value) :=
  match v with
  | .array items => .ok items
  | .object members => .ok (members.map Prod.snd)
  | _ => .error (.cannotUse v .iterable)

/-- A bound that may be missing. -/
def bound? (v : Option Value) (length missing : Nat) : Checked Nat :=
  match v with
  | none => .ok missing
  | some v => (integer? v).map fun n => bound n length

/-- How many of `length` items come before a slice, and how many are in it. -/
def extent (start stop : Option Value) (length : Nat) : Checked (Nat × Nat) :=
  match bound? start length 0 with
  | .error p => .error p
  | .ok skip => (bound? stop length length).map fun stop => (skip, stop - skip)

/-- The items or characters between two bounds. -/
def slice (v : Value) (start stop : Option Value) : Checked Value :=
  match v with
  | .array items =>
    (extent start stop items.length).map fun (skip, count) => .array ((items.drop skip).take count)
  | .text s =>
    let chars := s.toList
    (extent start stop chars.length).map fun (skip, count) =>
      .text (String.ofList ((chars.drop skip).take count))
  | _ => .error (.cannotUse v .rangeable)

/-- A change of a value: any number of outputs. -/
abbrev Change : Type := Value → Results Value

/-- A value that cannot be changed so: it stays as it is where errors are dropped. -/
def unchanged (drops : Bool) (v : Value) (p : Problem) : Except Stop Value :=
  if drops then .ok v else .error (.problem p)

/-- The first output of a change, if there is one. -/
def firstOutput (r : Results Value) : Except Stop (Option Value) :=
  match r.first? with
  | none => .ok none
  | some (.ok v) => .ok (some v)
  | some (.error s) => .error s

/-- The object with the content under a name changed; a missing member counts as null. -/
def changeMember (members : List (String × Value)) (name : String) (f : Change) :
    Except Stop (List (String × Value)) :=
  match Table.find? name members with
  | some content =>
    (firstOutput (f content)).map fun
      | some content => Table.insert name content members
      | none => Table.erase name members
  | none =>
    (firstOutput (f .null)).map fun
      | some content => members ++ [(name, content)]
      | none => members

/-- The items with one of them changed. -/
def changeItem (items : List Value) (i : Nat) (f : Change) : Except Stop (List Value) :=
  match items[i]? with
  | none => .ok items
  | some item =>
    (firstOutput (f item)).map fun
      | some item => items.set i item
      | none => items.eraseIdx i

/-- The value with the part that an index names changed. -/
def changeAt (drops : Bool) (index : Value) (f : Change) (v : Value) : Except Stop Value :=
  match v with
  | .object members =>
    match index with
    | .text name => (changeMember members name f).map .object
    | _ => unchanged drops v (.cannotIndex v index)
  | .array items =>
    match integer? index with
    | .error p => unchanged drops v p
    | .ok n =>
      match position? n items.length with
      | none => unchanged drops v (.outOfBounds index)
      | some i => (changeItem items i f).map .array
  | _ => unchanged drops v (.cannotUse v .iterable)

/-- The array with a slice of it changed to another array, or to nothing. -/
def changeSlice (drops : Bool) (start stop : Option Value) (f : Change) (v : Value) :
    Except Stop Value :=
  match v with
  | .array items =>
    match extent start stop items.length with
    | .error p => unchanged drops v p
    | .ok (skip, count) =>
      match firstOutput (f (.array ((items.drop skip).take count))) with
      | .error s => .error s
      | .ok none => .ok (.array (items.take skip ++ items.drop (skip + count)))
      | .ok (some (.array new)) =>
        .ok (.array (items.take skip ++ new ++ items.drop (skip + count)))
      | .ok (some w) => .error (.problem (.cannotUse w .array))
  | _ => unchanged drops v (.cannotUse v .array)

/-- The items with each of them changed to all outputs. -/
def changeItems (f : Change) : List Value → Except Stop (List Value)
  | [] => .ok []
  | item :: rest =>
    match (f item).collect with
    | .error s => .error s
    | .ok new => (changeItems f rest).map fun others => new ++ others

/-- The members with each content changed to the first output; those without one are left out. -/
def changeMembers (f : Change) : List (String × Value) → Except Stop (List (String × Value))
  | [] => .ok []
  | (name, content) :: rest =>
    match firstOutput (f content) with
    | .error s => .error s
    | .ok new =>
      (changeMembers f rest).map fun others =>
        match new with
        | some content => (name, content) :: others
        | none => others

/-- The value with all members or items changed. -/
def changeEach (drops : Bool) (f : Change) (v : Value) : Except Stop Value :=
  match v with
  | .array items => (changeItems f items).map .array
  | .object members => (changeMembers f members).map .object
  | _ => unchanged drops v (.cannotUse v .iterable)

end RecordCheck.Filter.Value
