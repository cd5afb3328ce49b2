set_option autoImplicit false

/-!
# Text: pieces

The pieces of a text between the occurrences of a separator: always one more than there are
separators, and empty where two of them meet or one stands at an end.
-/

namespace RecordCheck.Text

/-- The pieces of a text between separators. -/
def pieces (separator : Char) : List Char → List (List Char)
  | [] => [[]]
  | c :: rest =>
    if c = separator then [] :: pieces separator rest
    else
      match pieces separator rest with
      | [] => [[c]]
      | first :: others => (c :: first) :: others

end RecordCheck.Text
