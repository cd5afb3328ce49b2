import RecordCheck.Files.Path
set_option autoImplicit false

/-!
# Files: patterns

A pattern is a path whose names may hold wildcards: `?` for a character, `*` for any characters,
brackets for a character of a set, and `**` as a whole name for any number of directories.
-/

namespace RecordCheck.Files

/-- Why a text is no pattern. -/
inductive PatternFault where
  /-- more than two asterisks in a row -/
  | surplusAsterisks
  /-- two asterisks that are not a whole name -/
  | asterisksInName
  /-- a bracket that opens no set -/
  | invalidSet
  deriving DecidableEq, Repr, Inhabited

/-- A fault of a pattern and where it stands, in characters. -/
structure PatternError where
  position : Nat
  fault : PatternFault
  deriving DecidableEq, Repr, Inhabited

/-- What is wrong with a pattern. -/
def PatternFault.message : PatternFault → String
  | .surplusAsterisks => "wildcards are either regular `*` or recursive `**`"
  | .asterisksInName => "recursive wildcards must form a single path component"
  | .invalidSet => "invalid range pattern"

/-- The message of an error. -/
def PatternError.message (e : PatternError) : String :=
  "Pattern syntax error near position " ++ toString e.position ++ ": " ++ e.fault.message

/-- A set of characters: ranges with both ends. -/
abbrev Ranges : Type := List (Char × Char)

/-- The character lies in one of the ranges. -/
def Ranges.contains (ranges : Ranges) (c : Char) : Bool :=
  ranges.any fun (low, high) => low ≤ c && c ≤ high

/-- The ranges that the inside of brackets writes. -/
def Ranges.ofChars : List Char → Ranges
  | low :: '-' :: high :: rest => (low, high) :: ofChars rest
  | c :: rest => (c, c) :: ofChars rest
  | [] => []

/-- A part of a pattern. -/
inductive Token where
  | char (c : Char)
  | anyChar
  | anyText
  | within (ranges : Ranges)
  | outside (ranges : Ranges)
  /-- any number of whole names -/
  | anyNames
  deriving DecidableEq, Repr, Inhabited

/-- The ranges up to the closing bracket, and the rest.  A bracket that comes first belongs to the
set. -/
def closedSet? : List Char → Option (Ranges × List Char)
  | [] => none
  | first :: rest =>
    match rest.dropWhile (· != ']') with
    | [] => none
    | _ :: after => some (.ofChars (first :: rest.takeWhile (· != ']')), after)

/-- The set behind an opening bracket; an exclamation mark asks for the characters outside. -/
def set? : List Char → Option (Token × List Char)
  | '!' :: rest => (closedSet? rest).map fun (ranges, after) => (.outside ranges, after)
  | rest => (closedSet? rest).map fun (ranges, after) => (.within ranges, after)

/-- The token behind an asterisk that stands at a position, behind the character `before`. -/
def asterisks (position : Nat) (before : Option Char) (rest : List Char) :
    Except PatternError (Token × List Char) :=
  let after := rest.dropWhile (· == '*')
  match (rest.takeWhile (· == '*')).length with
  | 0 => .ok (.anyText, after)
  | 1 =>
    if before = none ∨ before = some '/' then
      match after with
      | [] => .ok (.anyNames, [])
      | c :: after =>
        if c = '/' then .ok (.anyNames, after) else .error ⟨position + 2, .asterisksInName⟩
    else .error ⟨position - 1, .asterisksInName⟩
  | _ => .error ⟨position + 2, .surplusAsterisks⟩

/-- The first token of a text, whose first character is given, and the rest. -/
def token (position : Nat) (before : Option Char) (c : Char) (rest : List Char) :
    Except PatternError (Token × List Char) :=
  if c = '?' then .ok (.anyChar, rest)
  else if c = '*' then asterisks position before rest
  else if c = '[' then
    match set? rest with
    | some read => .ok read
    | none => .error ⟨position, .invalidSet⟩
  else .ok (.char c, rest)

/-- The tokens of the rest of a text.  A token takes a character at least, so as many rounds as
characters are enough. -/
def tokensFrom (text : List Char) : (rounds : Nat) → (rest : List Char) →
    Except PatternError (List Token)
  | _, [] => .ok []
  | 0, _ => .ok []
  | rounds + 1, c :: rest =>
    let position := text.length - (rest.length + 1)
    let before := if position = 0 then none else text[position - 1]?
    match token position before c rest with
    | .error e => .error e
    | .ok (first, rest) => (tokensFrom text rounds rest).map (first :: ·)

/-- The tokens of a text. -/
def tokens (text : List Char) : Except PatternError (List Token) :=
  tokensFrom text text.length text

/-- Tokens match a name. -/
def matchesAll : List Token → List Char → Bool
  | [], name => name.isEmpty
  | .anyText :: rest, [] => matchesAll rest []
  | .anyText :: rest, c :: name =>
    matchesAll rest (c :: name) || matchesAll (.anyText :: rest) name
  | .char d :: rest, c :: name => c == d && matchesAll rest name
  | .anyChar :: rest, _ :: name => matchesAll rest name
  | .within ranges :: rest, c :: name => ranges.contains c && matchesAll rest name
  | .outside ranges :: rest, c :: name => !ranges.contains c && matchesAll rest name
  | _, _ => false
  termination_by pattern name => pattern.length + name.length

/-- A name of a pattern. -/
inductive Component where
  /-- without wildcards -/
  | literal (name : String)
  /-- two asterisks: any number of directories -/
  | anyNames
  | wild (pattern : List Token)
  deriving DecidableEq, Repr, Inhabited

/-- The characters of tokens, if they are nothing else. -/
def chars? : List Token → Option (List Char)
  | [] => some []
  | .char c :: rest => (chars? rest).map (c :: ·)
  | _ => none

/-- The component that tokens make. -/
def Component.ofTokens (pattern : List Token) : Component :=
  match chars? pattern with
  | some name => .literal (String.ofList name)
  | none => if pattern = [.anyNames] then .anyNames else .wild pattern

/-- The component matches a name. -/
def Component.matchesName (name : String) : Component → Bool
  | .literal own => name == own
  | .anyNames => true
  | .wild pattern => matchesAll pattern name.toList

/-- The component may match the names of points: it starts with one. -/
def Component.startsWithPoint : Component → Bool
  | .wild (.char c :: _) => c == '.'
  | _ => false

/-- Components in which two that stand for any number of directories do not meet. -/
def collapsed : List Component → List Component
  | [] => []
  | .anyNames :: rest =>
    match collapsed rest with
    | .anyNames :: others => .anyNames :: others
    | others => .anyNames :: others
  | c :: rest => c :: collapsed rest

/-- A pattern for paths. -/
structure Pattern where
  absolute : Bool
  components : List Component
  /-- only directories are asked for -/
  onlyDirectories : Bool
  deriving DecidableEq, Repr, Inhabited

/-- The text holds a character that makes it a pattern. -/
def isPattern (text : String) : Bool :=
  text.toList.any fun c => c == '*' || c == '?' || c == '['

/-- The texts between the slashes of a pattern, where the last slash and the one of the root do not
separate. -/
def Pattern.parts (text : String) : List (List Char) :=
  let text := text.toList
  let parts := Text.pieces '/' (if text.head? = some '/' then text.drop 1 else text)
  if parts.getLast? = some [] then parts.dropLast else parts

/-- The components of a pattern.  Each is read by itself. -/
def Pattern.componentsOf : List (List Char) → Except PatternError (List Component)
  | [] => .ok []
  | part :: rest =>
    match tokens part with
    | .error e => .error e
    | .ok pattern => (componentsOf rest).map (Component.ofTokens pattern :: ·)

/-- The pattern of a text.  The text has to be a pattern as a whole and in each of its parts. -/
def Pattern.parse (text : String) : Except PatternError Pattern :=
  match tokens text.toList with
  | .error e => .error e
  | .ok _ =>
    (Pattern.componentsOf (Pattern.parts text)).map fun components =>
      ⟨isAbsolute text, collapsed components, endsOpen text⟩

end RecordCheck.Files
