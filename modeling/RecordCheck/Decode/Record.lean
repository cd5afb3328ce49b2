import RecordCheck.Decode.Fields
import RecordCheck.Record.Json
set_option autoImplicit false

/-!
# Decode: records

The kinds of the declared records.  A record whose type only its tag tells is decoded in two ways:
`tagged` sets all other members aside until the tag is found, wherever it stands, and decodes them
then; `record` looks the tag up in a value first, and so can say where inside the record a failure
lies.  Each has its own list of the types, `variants` and `kindOf?`.
-/

namespace RecordCheck.Decode

/-- The kind of `MyType`. -/
def myType : Kind MyType :=
  .record "MyType" (.field "real" .integer .nil) fun (real, _) => ⟨real⟩

/-- The fields of both kinds of segment. -/
def segmentFields : Fields (Float × String × String × Unit) :=
  .field "duration" .float (.field "value" .text (.field "_core_type" .text .nil))

/-- The kind of `ComplexSegment`. -/
def complexSegment : Kind ComplexSegment :=
  .record "ComplexSegment" segmentFields fun (duration, value, coreType, _) =>
    ⟨duration, value, coreType⟩

/-- The kind of `ComplexSegment22`. -/
def complexSegment22 : Kind ComplexSegment22 :=
  .record "ComplexSegment22" segmentFields fun (duration, value, coreType, _) =>
    ⟨duration, value, coreType⟩

/-- The kind of `A`. -/
def a : Kind A := .record "A" (.field "a_string" .text .nil) fun (aString, _) => ⟨aString⟩

/-- The kind of `B`. -/
def b : Kind B :=
  .record "B" (.field "a" a (.field "b_string" .text .nil)) fun (a, bString, _) => ⟨a, bString⟩

/-- The record types by the names that tags give them, where the tag stands among other members. -/
def variants : Table (Kind Record) :=
  [("MyType", myType.map .myType),
   ("ComplexSegment", complexSegment.map .complexSegment),
   ("ComplexSegment22", complexSegment22.map .complexSegment22),
   ("A", a.map .a),
   ("B", b.map .b)]

/-- The kind that a tag names. -/
def judgeTag : Json → Except Failure (Kind Record)
  | .text name =>
    match Table.find? name variants with
    | some kind => .ok kind
    | none => .error (.ofMismatch (.unknownVariant name (Table.names variants)))
  | x => .error (.ofMismatch (.wrongType (.ofJson x) .tag))

/-- Decodes what was set aside. -/
def decodeBody (kind : Kind Record) (body : Json) : Except Failure Record :=
  match kind.ofJson body with
  | .ok r => .ok r
  | .error failure => .error failure.setAside

/-- Splits members into the kind that their tag names and the others, in order. -/
def splitTag (kind : Option (Kind Record)) (aside : List (String × Json)) :
    List (String × Json) → Except Failure (Kind Record × List (String × Json))
  | [] =>
    match kind with
    | some kind => .ok (kind, aside.reverse)
    | none => .error (.ofMismatch (.missingField tagName))
  | (name, x) :: members =>
    if name = tagName then
      if kind.isSome then .error (.ofMismatch (.duplicateField tagName))
      else match judgeTag x with
        | .error failure => .error (failure.within (.member tagName))
        | .ok kind => splitTag (some kind) aside members
    else splitTag kind ((name, x) :: aside) members

/-- Decodes a tagged record from a value: an object with a tag, or an array that begins with one. -/
def taggedOfJson : Json → Except Failure Record
  | .object members =>
    match splitTag none [] members with
    | .error failure => .error failure
    | .ok (kind, body) => decodeBody kind (.object body)
  | .array [] => .error (.ofMismatch (.missingField tagName))
  | .array (tag :: items) =>
    match judgeTag tag with
    | .error failure => .error (failure.within (.index 0))
    | .ok kind => decodeBody kind (.array items)
  | x => .error (.ofMismatch (.wrongType (.ofJson x) .tagged))

/-- Reads a value that is set aside, one level below the outermost. -/
def readAside (rounds : Nat) : Json.Reader Json := Json.value rounds (Json.depthLimit - 1)

/-- Reads the members of a tagged object up to its closing brace, which is taken. -/
def readTagged : (rounds : Nat) → (kind : Option (Kind Record)) → (aside : List (String × Json)) →
    (first : Bool) → Json.Bytes → Except Failure ((Kind Record × Json) × Json.Bytes)
  | 0, _, _, _, bytes => .error (.ofFault (.behind .outOfRounds bytes))
  | rounds + 1, kind, aside, first, bytes =>
    match Json.nextMember first bytes with
    | .error fault => .error (.ofFault (fault.within .unnamed))
    | .ok (false, rest) =>
      let rest := Fields.behindMembers rest
      match kind with
      | some kind => .ok ((kind, .object aside.reverse), rest)
      | none => .error (.atRest (.missingField tagName) rest)
    | .ok (true, rest) =>
      match Json.string rest with
      | .error fault => .error (.ofFault (fault.within .unnamed))
      | .ok (name, rest) =>
        if name = tagName ∧ kind.isSome then
          .error (.atRest (.duplicateField tagName) (Fields.behindMembers rest))
        else match Json.colon rest with
          | .error fault => .error (.ofFault fault)
          | .ok rest =>
            if name = tagName then
              match readScalar .tag judgeTag rest with
              | .error failure => .error (failure.within (.member tagName))
              | .ok (kind, rest) => readTagged rounds (some kind) aside false rest
            else match readAside rest.length rest with
              | .error fault => .error (.ofFault (fault.within (.member name)))
              | .ok (x, rest) => readTagged rounds kind ((name, x) :: aside) false rest

/-- Reads the items behind the tag of an array, from the item number `index` on, and the closing
bracket. -/
def readItemsAside : (rounds : Nat) → (index : Nat) → (aside : List Json) → Json.Bytes →
    Except Failure (Json × Json.Bytes)
  | 0, _, _, bytes => .error (.ofFault (.behind .outOfRounds bytes))
  | rounds + 1, index, aside, bytes =>
    match Json.nextItem false bytes with
    | .error fault => .error (.ofFault fault)
    | .ok (false, rest) => .ok (.array aside.reverse, rest.drop 1)
    | .ok (true, rest) =>
      match readAside rest.length rest with
      | .error fault => .error (.ofFault (fault.within (.index index)))
      | .ok (x, rest) => readItemsAside rounds (index + 1) (x :: aside) rest

/-- Reads a tagged array, behind its opening bracket. -/
def readTaggedItems (bytes : Json.Bytes) : Except Failure ((Kind Record × Json) × Json.Bytes) :=
  match Json.nextItem true bytes with
  | .error fault => .error (.ofFault fault)
  | .ok (false, rest) => .error (.atRest (.missingField tagName) (rest.drop 1))
  | .ok (true, rest) =>
    match readScalar .tag judgeTag rest with
    | .error failure => .error (failure.within (.index 0))
    | .ok (kind, rest) =>
      (readItemsAside (rest.length + 1) 1 [] rest).map fun (x, rest) => ((kind, x), rest)

/-- Decodes what was set aside while a text was read. -/
def finishTagged :
    Except Failure ((Kind Record × Json) × Json.Bytes) → Except Failure (Record × Json.Bytes)
  | .error failure => .error failure
  | .ok ((kind, body), rest) => (decodeBody kind body).map fun r => (r, rest)

/-- Tagged records. -/
def tagged : Kind Record where
  ofJson := taggedOfJson
  read bytes :=
    let bytes := Json.skipSpace bytes
    if bytes.head? = some 0x7b then
      finishTagged (readTagged (bytes.length + 1) none [] true (bytes.drop 1))
    else if bytes.head? = some 0x5b then
      finishTagged (readTaggedItems (bytes.drop 1))
    else readScalar .tagged
      (fun x => .error (.ofMismatch (.wrongType (.ofJson x) .tagged))) bytes

/-- The kind of the record type of a name, where the tag is looked up first. -/
def kindOf? : String → Option (Kind Record)
  | "MyType" => some (myType.map .myType)
  | "ComplexSegment" => some (complexSegment.map .complexSegment)
  | "ComplexSegment22" => some (complexSegment22.map .complexSegment22)
  | "A" => some (a.map .a)
  | "B" => some (b.map .b)
  | _ => none

/-- Decodes a tagged record from a value: the tag decides, and the other members have to be the
fields of its type.  The member behind all others takes the place of the tag, which shows if several
members are wrong. -/
def decodeRecord (x : Json) : Except Failure Record :=
  match x with
  | .object members =>
    match Table.find? tagName members with
    | none => .error (.ofMismatch (.missingField tagName))
    | some (.text name) =>
      match kindOf? name with
      | some kind => kind.ofJson (.object (Table.erase tagName members))
      | none => .error ((Failure.ofMismatch (.unknownRecord name)).within (.member tagName))
    | some _ => .error ((Failure.ofMismatch .tagNotText).within (.member tagName))
  | _ => .error (.ofMismatch .notTagged)

/-- The record of a value, or the report. -/
def record (x : Json) : Except Error Record :=
  (decodeRecord x).mapError (·.report [])

/-- What a kind decodes from a value, or the report. -/
def ofJson {α : Type} (kind : Kind α) (x : Json) : Except Error α :=
  (kind.ofJson x).mapError (·.report [])

/-- What a kind decodes from the start of a text, or the report.  What follows is not looked at. -/
def ofBytes {α : Type} (kind : Kind α) (bytes : Json.Bytes) : Except Error α :=
  ((kind.read bytes).map Prod.fst).mapError (·.report bytes)

end RecordCheck.Decode
