import RecordCheck.Complex.Basic
import RecordCheck.Complex.Double
set_option autoImplicit false

/-!
# Complex: reading literals in one pass

A reader of literals that never goes back: it takes the longest match at each step, and nothing that
may follow a step can begin with what the step leaves out.
-/

namespace RecordCheck.Complex

/-- The digits that continue a run, each with at most one underscore before it. -/
def continueDigits : List Char → List Nat × List Char
  | [] => ([], [])
  | c :: rest =>
    match digitValue? c with
    | some d => let (ds, left) := continueDigits rest; (d :: ds, left)
    | none =>
      if c = '_' then
        match rest with
        | [] => ([], [c])
        | c' :: rest' =>
          match digitValue? c' with
          | some d => let (ds, left) := continueDigits rest'; (d :: ds, left)
          | none => ([], c :: rest)
      else ([], c :: rest)

/-- A run of one or more digits. -/
def readDigits? : List Char → Option (List Nat × List Char)
  | [] => none
  | c :: rest =>
    match digitValue? c with
    | some d => let (ds, left) := continueDigits rest; some (d :: ds, left)
    | none => none

/-- A power of ten, if there is one. -/
def readPower (text : List Char) : Int × List Char :=
  match text with
  | c :: rest =>
    if c = 'e' ∨ c = 'E' then
      let (sign, afterSign) := readSign rest
      match readDigits? afterSign with
      | some (ds, left) =>
        (if sign = some true then -(ofDigits ds : Int) else (ofDigits ds : Int), left)
      | none => (0, text)
    else (0, text)
  | [] => (0, text)

/-- The text begins with a word in small letters, whatever the case of its own: the rest. -/
def afterWord? : (word : List Char) → List Char → Option (List Char)
  | [], text => some text
  | _ :: _, [] => none
  | w :: word, c :: text => if c.toLower = w then afterWord? word text else none

/-- A number at the start of the text. -/
def readNumber? (text : List Char) : Option (Magnitude × List Char) :=
  match readDigits? text with
  | some (whole, '.' :: afterPoint) =>
    let (fraction, rest) := (readDigits? afterPoint).getD ([], afterPoint)
    let (power, left) := readPower rest
    some (decimalOf whole fraction power, left)
  | some (whole, rest) =>
    let (power, left) := readPower rest
    some (decimalOf whole [] power, left)
  | none =>
    match text with
    | '.' :: afterPoint =>
      match readDigits? afterPoint with
      | some (fraction, rest) =>
        let (power, left) := readPower rest
        some (decimalOf [] fraction power, left)
      | none => none
    | _ =>
      match afterWord? ['n', 'a', 'n'] text with
      | some left => some (.nan, left)
      | none =>
        match afterWord? ['i', 'n', 'f', 'i', 'n', 'i', 't', 'y'] text with
        | some left => some (.infinite, left)
        | none => (afterWord? ['i', 'n', 'f'] text).map fun left => (.infinite, left)

/-- The text is the imaginary unit alone. -/
def isUnit (text : List Char) : Bool := text == ['j'] || text == ['J']

/-- The imaginary part after its sign: a number, or one, times the imaginary unit. -/
def readImaginary? (negative : Bool) (text : List Char) : Option UInt64 :=
  match readNumber? text with
  | some (number, left) => if isUnit left then some (number.toBits negative) else none
  | none =>
    if isUnit text then some ((Magnitude.decimal ⟨1, 0⟩).toBits negative) else none

/-- The complex number that a bare literal names. -/
def ofBody? (body : List Char) : Option Complex :=
  let (sign, afterSign) := readSign body
  let negative := sign == some true
  match readNumber? afterSign with
  | none => (readImaginary? negative afterSign).map fun im => ⟨0, im⟩
  | some (number, left) =>
    let part := number.toBits negative
    if left.isEmpty then some ⟨part, 0⟩
    else if isUnit left then some ⟨0, part⟩
    else match readSign left with
      | (some negative', afterSign') =>
        (readImaginary? negative' afterSign').map fun im => ⟨part, im⟩
      | (none, _) => none

end RecordCheck.Complex
