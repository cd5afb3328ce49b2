import RecordCheck.Complex.Basic
import RecordCheck.Complex.Double
import RecordCheck.Table
import RecordCheck.Text.Blank
import RecordCheck.Text.Quoted
import RecordCheck.Text.Regex
set_option autoImplicit false

/-!
# Complex: literals

The texts that name a complex number.  Blanks at the ends and one pair of parentheses around all of
a text, with blanks inside, are set aside; what is left is matched with a regular expression, whose
groups hold the texts of the parts.  A part that is matched has still to be the text of a double:
the expression counts the decimal digits of all scripts as digits, and a double has those of ASCII
only.
-/

namespace RecordCheck.Complex

/-- Why a text names no complex number. -/
inductive LiteralError where
  /-- nothing is left without blanks and parentheses -/
  | empty
  /-- the text is not a literal -/
  | malformed (text : String)
  deriving DecidableEq, Repr, Inhabited

/-- The message of an error. -/
def LiteralError.message : LiteralError → String
  | .empty => "empty complex literal"
  | .malformed text => "malformed complex literal: " ++ Text.quoted text

/-! ## The regular expression -/

namespace Pattern

open Text (Regex)

/-- A sign: `[+-]`. -/
def sign : Regex := .one (.of ['+', '-'])

/-- Digits, with single underscores between them: `\d(?:_?\d)*`. -/
def digits : Regex :=
  .seq (.one .digit) (.many (.seq (.optional (.one (.of ['_']))) (.one .digit)))

/-- A power of ten: `e[+-]?\d(?:_?\d)*`. -/
def power : Regex := .seq (.one (.letter 'e')) (.seq (.optional sign) digits)

/-- A word in either case, of its first small letter and the others. -/
def word : Char → List Char → Regex
  | c, [] => .one (.letter c)
  | c, next :: others => .seq (.one (.letter c)) (word next others)

/-- An unsigned number: digits with or without a point, with or without digits behind it, with or
without a power; a point and digits, with or without a power; or a name. -/
def number : Regex :=
  .either
    (.seq digits (.seq (.optional (.one (.of ['.'])))
      (.seq (.optional digits) (.optional power))))
    (.either
      (.seq (.one (.of ['.'])) (.seq digits (.optional power)))
      (.either (word 'n' ['a', 'n'])
        (.seq (word 'i' ['n', 'f']) (.optional (word 'i' ['n', 'i', 't', 'y'])))))

/-- A number with or without a sign. -/
def real : Regex := .seq (.optional sign) number

/-- A number, if there is one, and the imaginary unit. -/
def imaginary : Regex := .seq (.optional number) (.one (.letter 'j'))

/-- A real part with or without an imaginary one behind it, or an imaginary part alone. -/
def parts : Regex :=
  .either
    (.seq (.group "re" real) (.optional (.group "im" (.seq sign imaginary))))
    (.group "imonly" (.seq (.optional sign) imaginary))

/-- A literal: nothing lies before or behind its parts. -/
def literal : Regex := .seq .start (.seq parts .finish)

end Pattern

/-! ## The parts -/

/-- The word of the double that a text names without its underscores. -/
def parseBits? (text : List Char) : Option UInt64 :=
  if '_' ∈ text then bitsOfText? (text.filter (· != '_')) else bitsOfText? text

/-- The text without its last byte, if that byte is a character. -/
def withoutLastByte? (text : List Char) : Option (List Char) :=
  match text.getLast? with
  | some c => if c.utf8Size = 1 then some text.dropLast else none
  | none => none

/-- The word of one, with a sign. -/
def oneBits (negative : Bool) : UInt64 :=
  Binary64.signedBits negative (1023 * Binary64.binade)

/-- The imaginary part of a text that ends with the imaginary unit; there is no outcome if the last
byte cannot be taken off.  Without a number it is one. -/
def parseImaginary? (text : List Char) : Option (Option UInt64) :=
  (withoutLastByte? text).map fun coefficient =>
    if coefficient = [] ∨ coefficient = ['+'] then some (oneBits false)
    else if coefficient = ['-'] then some (oneBits true)
    else parseBits? coefficient

/-- The complex number of the groups of a match; there is no outcome if that of an imaginary part
is missing. -/
def ofGroups? (groups : Text.Regex.Groups) : Option (Option Complex) :=
  match Table.find? "imonly" groups with
  | some text => (parseImaginary? text).map fun im => im.map fun im => ⟨0, im⟩
  | none =>
    match (Table.find? "re" groups).bind parseBits? with
    | none => some none
    | some re =>
      match Table.find? "im" groups with
      | some text => (parseImaginary? text).map fun im => im.map fun im => ⟨re, im⟩
      | none => some (some ⟨re, 0⟩)

/-- The complex number that a bare literal names, as far as there is an outcome. -/
def ofBare? (bare : List Char) : Option (Option Complex) :=
  match Pattern.literal.captures bare with
  | some groups => ofGroups? groups
  | none => some none

/-! ## Texts -/

/-- The characters between a pair of parentheses around all of the text. -/
def enclosed? (text : List Char) : Option (List Char) :=
  match text with
  | '(' :: rest =>
    match rest.reverse with
    | ')' :: inner => some inner.reverse
    | _ => none
  | _ => none

/-- The bare literal of a text: without blanks at the ends and one pair of parentheses. -/
def body (text : List Char) : List Char :=
  let trimmed := Text.trim text
  match enclosed? trimmed with
  | some inner => Text.trim inner
  | none => trimmed

/-- The complex number that a text names; there is no outcome where the last byte of a text would be
taken off that is no character. -/
def parse? (text : String) : Option (Except LiteralError Complex) :=
  let bare := body text.toList
  if bare.isEmpty then some (.error .empty)
  else (ofBare? bare).map fun
    | some c => .ok c
    | none => .error (.malformed text)

/-- The complex number that a text names. -/
def parse (text : String) : Except LiteralError Complex :=
  (parse? text).getD (.error (.malformed text))

end RecordCheck.Complex
