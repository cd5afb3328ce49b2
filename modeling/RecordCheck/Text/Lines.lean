set_option autoImplicit false

/-!
# Text: lines

A line ends with a line feed, which a carriage return may precede; neither belongs to the line.
What follows the last line feed is a line too, unless it is empty.
-/

namespace RecordCheck.Text

/-- The lines of a text whose first line began with the characters `read`, kept last one first. -/
def linesAfter (read : List Char) : List Char → List (List Char)
  | [] => if read.isEmpty then [] else [read.reverse]
  | '\n' :: rest =>
    let line := match read with
      | '\r' :: before => before
      | _ => read
    line.reverse :: linesAfter [] rest
  | c :: rest => linesAfter (c :: read) rest

/-- The lines of a text, in order. -/
def lines (text : List Char) : List (List Char) := linesAfter [] text

end RecordCheck.Text
