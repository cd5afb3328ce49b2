import RecordCheck.Text.Blank
set_option autoImplicit false

/-!
# Filter: tokens

The words, numbers, strings and signs that a filter is written with.  A string is given in pieces,
between which stand the tokens of the filters embedded in it.  Blanks and comments separate tokens.
-/

namespace RecordCheck.Filter

/-- A token. -/
inductive Token where
  /-- a name, or a word of the language -/
  | word (name : String)
  /-- a name behind a dollar sign -/
  | variable (name : String)
  /-- a name behind an at sign, which is kept -/
  | format (name : String)
  /-- a number as it is spelled -/
  | number (spelling : String)
  /-- signs of an operator, a delimiter, or a point with a name behind it -/
  | symbol (signs : String)
  | stringOpen
  | stringPiece (s : String)
  | stringClose
  | embedOpen
  | embedClose
  deriving DecidableEq, Repr, Inhabited

namespace Token

/-- The character may begin a name. -/
def beginsName (c : Char) : Bool :=
  ('a' ≤ c && c ≤ 'z') || ('A' ≤ c && c ≤ 'Z') || c = '_'

/-- The character is a decimal digit. -/
def isDigit (c : Char) : Bool := '0' ≤ c && c ≤ '9'

/-- The character may continue a name. -/
def continuesName (c : Char) : Bool := beginsName c || isDigit c

/-- A name at the start of the text. -/
def name? : List Char → Option (List Char × List Char)
  | [] => none
  | c :: rest =>
    if beginsName c then some (c :: rest.takeWhile continuesName, rest.dropWhile continuesName)
    else none

/-- A name in which one other name may stand before a double colon. -/
def qualifiedName? (text : List Char) : Option (List Char × List Char) :=
  match name? text with
  | some (first, ':' :: ':' :: rest) =>
    (name? rest).map fun (second, rest) => (first ++ ':' :: ':' :: second, rest)
  | found => found

/-- The character may begin an operator. -/
def beginsOperator (c : Char) : Bool :=
  c = '|' || c = '=' || c = '!' || c = '<' || c = '>' || c = '+' || c = '-' || c = '*' || c = '/'
    || c = '%'

/-- The character may continue an operator. -/
def continuesOperator (c : Char) : Bool := c = '=' || c = '/'

/-- One or more digits at the start of the text. -/
def digits? (text : List Char) : Option (List Char × List Char) :=
  let ds := text.takeWhile isDigit
  if ds.isEmpty then none else some (ds, text.dropWhile isDigit)

/-- The digits behind the point, with the point, if there is one. -/
def fraction? : List Char → Option (List Char × List Char)
  | '.' :: rest => (digits? rest).map fun (ds, rest) => ('.' :: ds, rest)
  | text => some ([], text)

/-- The power of ten, with its mark and sign, if there is one. -/
def power? (text : List Char) : Option (List Char × List Char) :=
  match text with
  | c :: rest =>
    if c = 'e' ∨ c = 'E' then
      let (sign, rest) := match rest with
        | '+' :: rest => (['+'], rest)
        | '-' :: rest => (['-'], rest)
        | _ => ([], rest)
      (digits? rest).map fun (ds, rest) => (c :: sign ++ ds, rest)
    else some ([], text)
  | [] => some ([], text)

/-- The spelling of a number at the start of the text. -/
def number? (text : List Char) : Option (List Char × List Char) := do
  let (whole, rest) ← digits? text
  let (fraction, rest) ← fraction? rest
  let (power, rest) ← power? rest
  return (whole ++ fraction ++ power, rest)

/-- The value of a hexadecimal digit. -/
def hexValue? (c : Char) : Option Nat :=
  if isDigit c then some (c.toNat - '0'.toNat)
  else if 'a' ≤ c ∧ c ≤ 'f' then some (c.toNat - 'a'.toNat + 10)
  else if 'A' ≤ c ∧ c ≤ 'F' then some (c.toNat - 'A'.toNat + 10)
  else none

/-- The character that an escape stands for, behind its backslash. -/
def escape? : List Char → Option (Char × List Char)
  | 'u' :: a :: b :: c :: d :: rest => do
    let n ← [a, b, c, d].foldlM (fun n digit => (hexValue? digit).map (16 * n + ·)) 0
    if h : n.isValidChar then some (Char.ofNatAux n h, rest) else none
  | '"' :: rest => some ('"', rest)
  | '\\' :: rest => some ('\\', rest)
  | '/' :: rest => some ('/', rest)
  | 'b' :: rest => some ('\x08', rest)
  | 'f' :: rest => some ('\x0c', rest)
  | 'n' :: rest => some ('\n', rest)
  | 'r' :: rest => some ('\r', rest)
  | 't' :: rest => some ('\t', rest)
  | _ => none

/-- The text behind a comment.  A line that ends with an odd number of backslashes continues the
comment on the next one; `escaped` says that the characters just before end so. -/
def afterComment (escaped : Bool) : List Char → List Char
  | [] => []
  | '\n' :: rest => if escaped then afterComment false rest else rest
  | '\r' :: '\n' :: rest => if escaped then afterComment false rest else rest
  | c :: rest => afterComment (c = '\\' && !escaped) rest

/-- What a parenthesis that closes will end. -/
inductive Enclosure where
  | parenthesis
  | embedded
  deriving DecidableEq, Repr, Inhabited

/-- What the reader is in. -/
inductive Mode where
  /-- between tokens -/
  | outside
  /-- in a string, with the characters of the present piece, the last one first -/
  | inString (piece : List Char)
  deriving DecidableEq, Repr, Inhabited

/-- The token of a piece of a string, unless it is empty. -/
def pieceTokens (piece : List Char) : List Token :=
  if piece.isEmpty then [] else [.stringPiece (String.ofList piece.reverse)]

/-- The next token outside strings, as one of one or more characters. -/
def plain? (text : List Char) : Option (Token × List Char) :=
  match text with
  | [] => none
  | c :: rest =>
    if beginsName c then
      (qualifiedName? text).map fun (s, rest) => (.word (String.ofList s), rest)
    else if c = '$' then
      (qualifiedName? rest).map fun (s, rest) => (.variable (String.ofList s), rest)
    else if c = '@' then
      (name? rest).map fun (s, rest) => (.format (String.ofList ('@' :: s)), rest)
    else if isDigit c then (number? text).map fun (s, rest) => (.number (String.ofList s), rest)
    else if beginsOperator c then
      some (.symbol (String.ofList (c :: rest.takeWhile continuesOperator)),
        rest.dropWhile continuesOperator)
    else if c = '.' then
      match rest with
      | '.' :: rest => some (.symbol "..", rest)
      | _ =>
        match name? rest with
        | some (s, rest) => some (.symbol (String.ofList ('.' :: s)), rest)
        | none => some (.symbol ".", rest)
    else if [':', ';', ',', '?', '[', ']', '\x7b', '\x7d'].contains c then
      some (.symbol (String.ofList [c]), rest)
    else none

/-- The tokens of a text.  Every round takes at least one character. -/
def scan : (rounds : Nat) → Mode → (open' : List Enclosure) → List Char → Option (List Token)
  | 0, _, _, _ => none
  | _ + 1, .outside, open', [] => if open'.isEmpty then some [] else none
  | _ + 1, .inString _, _, [] => none
  | rounds + 1, .inString piece, open', c :: rest =>
    if c = '"' then
      (scan rounds .outside open' rest).map fun ts => pieceTokens piece ++ .stringClose :: ts
    else if c = '\\' then
      match rest with
      | '(' :: rest =>
        (scan rounds .outside (.embedded :: open') rest).map fun ts =>
          pieceTokens piece ++ .embedOpen :: ts
      | _ =>
        match escape? rest with
        | some (c, rest) => scan rounds (.inString (c :: piece)) open' rest
        | none => none
    else scan rounds (.inString (c :: piece)) open' rest
  | rounds + 1, .outside, open', c :: rest =>
    if Text.isBlank c then scan rounds .outside open' rest
    else if c = '#' then scan rounds .outside open' (afterComment false rest)
    else if c = '"' then (scan rounds (.inString []) open' rest).map (.stringOpen :: ·)
    else if c = '(' then
      (scan rounds .outside (.parenthesis :: open') rest).map (.symbol "(" :: ·)
    else if c = ')' then
      match open' with
      | .parenthesis :: open' => (scan rounds .outside open' rest).map (.symbol ")" :: ·)
      | .embedded :: open' => (scan rounds (.inString []) open' rest).map (.embedClose :: ·)
      | [] => none
    else match plain? (c :: rest) with
      | some (token, rest) => (scan rounds .outside open' rest).map (token :: ·)
      | none => none

/-- The tokens of a filter, unless it has a character or an escape that belongs to none. -/
def tokens? (text : String) : Option (List Token) :=
  let chars := text.toList
  scan (chars.length + 1) .outside [] chars

end Token
end RecordCheck.Filter
