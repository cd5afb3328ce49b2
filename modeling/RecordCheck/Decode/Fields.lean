import RecordCheck.Decode.Mismatch
import RecordCheck.Json.Reader
set_option autoImplicit false

/-!
# Decode: kinds of nodes and rows of fields

A kind says how one sort of node is decoded, from a value and from a text; both accept the same
nodes.  A row lists the declared fields of a record, each with its kind, and the type of what it
decodes is the product of the fields' types.  While members arrive, in any order, they go into
slots.
-/

namespace RecordCheck.Decode

/-- How one sort of node is decoded. -/
structure Kind (α : Type) where
  /-- from a value -/
  ofJson : Json → Except Failure α
  /-- from the start of a text, whose rest is given back -/
  read : Json.Bytes → Except Failure (α × Json.Bytes)

/-- The kind with a function applied to what is decoded. -/
def Kind.map {α β : Type} (f : α → β) (kind : Kind α) : Kind β where
  ofJson x := (kind.ofJson x).map f
  read bytes := (kind.read bytes).map fun (a, rest) => (f a, rest)

/-- Reads a node that is neither array nor object, and judges it. -/
def readScalar {α : Type} (expected : Expected) (judge : Json → Except Failure α)
    (bytes : Json.Bytes) : Except Failure (α × Json.Bytes) :=
  let bytes := Json.skipSpace bytes
  if bytes.head? = some 0x5b then .error (.atRest (.wrongType .sequence expected) bytes)
  else if bytes.head? = some 0x7b then .error (.atRest (.wrongType .map expected) bytes)
  else match Json.valueOver 0 none bytes with
    | .error fault => .error (.ofFault fault)
    | .ok (x, rest) =>
      match judge x with
      | .ok a => .ok (a, rest)
      | .error failure => .error { failure with left := some rest.length }

/-- The kind of nodes that a judgement on values without nodes of their own accepts. -/
def Kind.scalar {α : Type} (expected : Expected) (judge : Json → Except Failure α) : Kind α where
  ofJson := judge
  read := readScalar expected judge

/-- The least integer of 64 bits. -/
def integerMin : Int := -(twoTo 63)

/-- The greatest integer of 64 bits. -/
def integerMax : Int := twoTo 63 - 1

/-- Integers of 64 bits. -/
def Kind.integer : Kind Int64 := .scalar .integer fun
  | .integer n =>
    if integerMin ≤ n ∧ n ≤ integerMax then .ok (Int64.ofInt n)
    else .error (.ofMismatch (.wrongValue (.integer n) .integer))
  | x => .error (.ofMismatch (.wrongType (.ofJson x) .integer))

/-- Numbers, as doubles; an integer becomes the nearest one. -/
def Kind.float : Kind Float := .scalar .float fun
  | .integer n => .ok (Binary64.ofInt n)
  | .float x => .ok x
  | x => .error (.ofMismatch (.wrongType (.ofJson x) .float))

/-- Texts. -/
def Kind.text : Kind String := .scalar .text fun
  | .text s => .ok s
  | x => .error (.ofMismatch (.wrongType (.ofJson x) .text))

/-- The declared fields of a record, in order; the index is the product of their types. -/
inductive Fields : Type → Type 1 where
  | nil : Fields Unit
  | field {α β : Type} (name : String) (kind : Kind α) (rest : Fields β) : Fields (α × β)

/-- What may be done with a member of a name. -/
inductive SlotState where
  /-- no field has this name -/
  | unknown
  /-- the field has its content already -/
  | taken
  /-- the field waits for its content -/
  | free
  deriving DecidableEq, Repr, Inhabited

namespace Fields

/-- The names of the fields. -/
def names {τ : Type} : Fields τ → List String
  | .nil => []
  | .field name _ rest => name :: rest.names

/-- For each field, its content once it is known. -/
def Slots {τ : Type} : Fields τ → Type
  | .nil => Unit
  | @Fields.field α _ _ _ rest => Option α × rest.Slots

/-- No content known. -/
def empty {τ : Type} : (f : Fields τ) → f.Slots
  | .nil => ()
  | .field _ _ rest => (none, rest.empty)

/-- What may be done with a member of a name. -/
def state {τ : Type} (name : String) : (f : Fields τ) → f.Slots → SlotState
  | .nil, _ => .unknown
  | .field n _ rest, slots =>
    if n = name then (if slots.1.isSome then .taken else .free) else rest.state name slots.2

/-- Puts the content of a member into the slot of its name. -/
def put {τ : Type} (name : String) (x : Json) : (f : Fields τ) → f.Slots → Except Failure f.Slots
  | .nil, slots => .ok slots
  | .field n kind rest, slots =>
    if n = name then
      (kind.ofJson x).map fun a => (some a, slots.2)
    else (rest.put name x slots.2).map fun others => (slots.1, others)

/-- Reads the content of a member into the slot of its name. -/
def readInto {τ : Type} (name : String) (bytes : Json.Bytes) :
    (f : Fields τ) → f.Slots → Except Failure (f.Slots × Json.Bytes)
  | .nil, slots => .ok (slots, bytes)
  | .field n kind rest, slots =>
    if n = name then
      (kind.read bytes).map fun (a, left) => ((some a, slots.2), left)
    else (rest.readInto name bytes slots.2).map fun (others, left) => ((slots.1, others), left)

/-- The contents of all fields, or the first field without content. -/
def finish {τ : Type} : (f : Fields τ) → f.Slots → Except Mismatch τ
  | .nil, _ => .ok ()
  | .field name _ rest, slots =>
    match slots.1 with
    | none => .error (.missingField name)
    | some a => (rest.finish slots.2).map fun b => (a, b)

/-- Puts members into their slots, in order. -/
def putAll {τ : Type} (f : Fields τ) : List (String × Json) → f.Slots → Except Failure f.Slots
  | [], slots => .ok slots
  | (name, x) :: members, slots =>
    match f.state name slots with
    | .unknown =>
      .error ((Failure.ofMismatch (.unknownField name f.names)).within (.member name))
    | .taken => .error (.ofMismatch (.duplicateField name))
    | .free =>
      match f.put name x slots with
      | .error failure => .error (failure.within (.member name))
      | .ok slots => f.putAll members slots

/-- Decodes items field by field, from the item number `index` on; `few` is the mismatch if the
items end too early. -/
def ofItems {τ : Type} (few : Nat → Mismatch) :
    (f : Fields τ) → (index : Nat) → List Json → Except Failure τ
  | .nil, _, _ => .ok ()
  | .field _ _ _, index, [] => .error (.ofMismatch (few index))
  | .field _ kind rest, index, x :: items =>
    match kind.ofJson x with
    | .error failure => .error (failure.within (.index index))
    | .ok a => (rest.ofItems few (index + 1) items).map fun b => (a, b)

/-- The bytes behind the end of an object of which no more members are taken. -/
def behindMembers (bytes : Json.Bytes) : Json.Bytes :=
  match Json.skipSpace bytes with
  | [] => []
  | b :: rest => if b = 0x7d then rest else b :: rest

/-- Reads members into their slots up to the closing brace, which is taken.  Each round fills a
slot, so one round more than there are fields is enough. -/
def readAll {τ : Type} (f : Fields τ) :
    (rounds : Nat) → (first : Bool) → f.Slots → Json.Bytes → Except Failure (τ × Json.Bytes)
  | 0, _, _, bytes => .error (.ofFault (.behind .outOfRounds bytes))
  | rounds + 1, first, slots, bytes =>
    match Json.nextMember first bytes with
    | .error fault => .error (.ofFault (fault.within .unnamed))
    | .ok (false, rest) =>
      let rest := behindMembers rest
      match f.finish slots with
      | .error m => .error (.atRest m rest)
      | .ok contents => .ok (contents, rest)
    | .ok (true, rest) =>
      match Json.string rest with
      | .error fault => .error (.ofFault (fault.within .unnamed))
      | .ok (name, rest) =>
        match f.state name slots with
        | .unknown =>
          .error ((Failure.atRest (.unknownField name f.names) (behindMembers rest)).within
            (.member name))
        | .taken => .error (.atRest (.duplicateField name) (behindMembers rest))
        | .free =>
          match Json.colon rest with
          | .error fault => .error (.ofFault fault)
          | .ok rest =>
            match f.readInto name rest slots with
            | .error failure => .error (failure.within (.member name))
            | .ok (slots, rest) => f.readAll rounds false slots rest

/-- Takes the closing bracket behind the last item that is wanted. -/
def endItems (bytes : Json.Bytes) : Except Json.Fault Json.Bytes :=
  match Json.skipSpace bytes with
  | [] => .error (.ahead .endInList [])
  | b :: rest =>
    if b = 0x5d then .ok rest
    else if b = 0x2c then
      let rest := Json.skipSpace rest
      if rest.head? = some 0x5d then .error (.ahead .trailingComma rest)
      else .error (.ahead .trailingCharacters rest)
    else .error (.ahead .trailingCharacters (b :: rest))

/-- Reads items field by field, from the item number `index` on. -/
def readItems {τ : Type} (few : Nat → Mismatch) :
    (f : Fields τ) → (index : Nat) → Json.Bytes → Except Failure (τ × Json.Bytes)
  | .nil, _, bytes => .ok ((), bytes)
  | .field _ kind rest, index, bytes =>
    match Json.nextItem (index = 0) bytes with
    | .error fault => .error (.ofFault fault)
    | .ok (false, left) => .error (.atRest (few index) (left.drop 1))
    | .ok (true, left) =>
      match kind.read left with
      | .error failure => .error (failure.within (.index index))
      | .ok (a, left) =>
        (rest.readItems few (index + 1) left).map fun (b, left) => ((a, b), left)

end Fields

/-- Records with the given fields: an object with each of them once and nothing else, or an array of
their contents in the order of declaration. -/
def Kind.record {τ α : Type} (name : String) (fields : Fields τ) (build : τ → α) : Kind α where
  ofJson
    | .object members =>
      match fields.putAll members fields.empty with
      | .error failure => .error failure
      | .ok slots =>
        match fields.finish slots with
        | .error m => .error (.ofMismatch m)
        | .ok contents => .ok (build contents)
    | .array items =>
      match fields.ofItems (.fewItems name fields.names.length) 0 items with
      | .error failure => .error failure
      | .ok contents =>
        if fields.names.length < items.length then
          .error (.ofMismatch (.manyItems fields.names.length items.length))
        else .ok (build contents)
    | x => .error (.ofMismatch (.wrongType (.ofJson x) (.record name)))
  read bytes :=
    let bytes := Json.skipSpace bytes
    if bytes.head? = some 0x7b then
      match fields.readAll (fields.names.length + 1) true fields.empty (bytes.drop 1) with
      | .error failure => .error failure
      | .ok (contents, rest) => .ok (build contents, rest)
    else if bytes.head? = some 0x5b then
      match fields.readItems (.fewItems name fields.names.length) 0 (bytes.drop 1) with
      | .error failure => .error failure
      | .ok (contents, rest) =>
        match Fields.endItems rest with
        | .error fault => .error (.ofFault fault)
        | .ok rest => .ok (build contents, rest)
    else readScalar (.record name)
      (fun x => .error (.ofMismatch (.wrongType (.ofJson x) (.record name)))) bytes

end RecordCheck.Decode
