import RecordCheck.Filter.Token
import RecordCheck.Filter.Syntax
set_option autoImplicit false

/-!
# Filter: grammar

Reads a filter from its tokens.  From the loosest to the tightest, the operators are: the pipe, with
or without names for its left side; the comma; the assignments; the alternative; `or`; `and`; the
comparisons; sum and difference; product and quotient; remainder.  The pipe, the assignments and the
alternative group to the right, the others to the left.

Every function takes a number of rounds, one for each level of nesting of its calls; between two
tokens there are fewer than ten levels.
-/

namespace RecordCheck.Filter

/-- An operator between two filters. -/
inductive BinaryOp where
  | pipe
  | comma
  | assign (how : Assignment)
  | alternative
  | or
  | and
  | compare (op : CompareOp)
  | math (op : MathOp)
  deriving DecidableEq, Repr, Inhabited

namespace BinaryOp

/-- How tightly an operator binds. -/
def level : BinaryOp → Nat
  | .pipe => 0
  | .comma => 1
  | .assign _ => 2
  | .alternative => 3
  | .or => 4
  | .and => 5
  | .compare _ => 6
  | .math .add => 7
  | .math .subtract => 7
  | .math .multiply => 8
  | .math .divide => 8
  | .math .remainder => 9

/-- The level that the right side of an operator needs: its own if it groups to the right. -/
def rightLevel (op : BinaryOp) : Nat :=
  match op with
  | .pipe => op.level
  | .assign _ => op.level
  | .alternative => op.level
  | _ => op.level + 1

/-- The filter of an operator and its two sides. -/
def join (op : BinaryOp) (left right : Term) : Term :=
  match op with
  | .pipe => .pipe left right
  | .comma => .comma left right
  | .assign how => .assign how left right
  | .alternative => .alternative left right
  | .or => .or left right
  | .and => .and left right
  | .compare op => .compare op left right
  | .math op => .math op left right

/-- The operators by their signs. -/
def bySigns : List (String × BinaryOp) :=
  [("|", .pipe), (",", .comma),
   ("=", .assign .assign), ("|=", .assign .update), ("+=", .assign (.combine .add)),
   ("-=", .assign (.combine .subtract)), ("*=", .assign (.combine .multiply)),
   ("/=", .assign (.combine .divide)), ("%=", .assign (.combine .remainder)),
   ("//=", .assign .default), ("//", .alternative),
   ("<", .compare .less), ("<=", .compare .lessEqual), (">", .compare .greater),
   (">=", .compare .greaterEqual), ("==", .compare .equal), ("!=", .compare .notEqual),
   ("+", .math .add), ("-", .math .subtract), ("*", .math .multiply), ("/", .math .divide),
   ("%", .math .remainder)]

/-- The operator that a token is. -/
def ofToken? : Token → Option BinaryOp
  | .symbol signs => bySigns.lookup signs
  | .word name => if name = "or" then some .or else if name = "and" then some .and else none
  | _ => none

end BinaryOp

namespace Grammar

/-- Words that are no names of filters. -/
def keywords : List String :=
  ["def", "as", "label", "break", "if", "then", "elif", "else", "end", "or", "and", "try", "catch",
   "reduce", "foreach", "import", "include"]

/-- Takes one sign. -/
def sign (signs : String) : List Token → Option (List Token)
  | .symbol s :: rest => if s = signs then some rest else none
  | _ => none

/-- Takes one word. -/
def keyword (name : String) : List Token → Option (List Token)
  | .word w :: rest => if w = name then some rest else none
  | _ => none

/-- A string without embedded filters. -/
def literal (s : String) : Term := .string none [.chars s]

/-- The name behind the point of a sign, if there is one. -/
def memberName? (signs : String) : Option String :=
  match signs.toList with
  | '.' :: c :: rest => if c = '.' then none else some (String.ofList (c :: rest))
  | _ => none

/-- The filter that names the present node, with the parts of its path, the last one first. -/
def withParts (base : Term) (parts : List (Part × Bool)) : Term :=
  if parts.isEmpty then base else .path base parts.reverse

mutual

/-- Reads a filter; `comma` says whether it may hold commas outside of brackets. -/
def term (rounds : Nat) (comma : Bool) (tokens : List Token) : Option (Term × List Token) :=
  match rounds with
  | 0 => none
  | rounds + 1 => operand rounds comma 0 tokens

/-- Reads a filter whose outermost operators bind at least as tightly as `level`. -/
def operand (rounds : Nat) (comma : Bool) (level : Nat) (tokens : List Token) :
    Option (Term × List Token) :=
  match rounds with
  | 0 => none
  | rounds + 1 => do
    let (left, rest) ← atom rounds tokens
    operators rounds comma level left rest

/-- Reads the operators behind a left side, as long as they bind at least as tightly as `level`. -/
def operators (rounds : Nat) (comma : Bool) (level : Nat) (left : Term) (tokens : List Token) :
    Option (Term × List Token) :=
  match rounds with
  | 0 => none
  | rounds + 1 =>
    match tokens with
    | [] => some (left, [])
    | token :: rest =>
      if token = .word "as" then
        if level = 0 then do
          let (pattern, rest) ← pattern rounds rest
          let rest ← sign "|" rest
          let (body, rest) ← operand rounds comma 0 rest
          some (.bind left pattern body, rest)
        else some (left, tokens)
      else match BinaryOp.ofToken? token with
        | none => some (left, tokens)
        | some op =>
          if op.level < level || (op == .comma && !comma) then some (left, tokens)
          else do
            let (right, rest) ← operand rounds comma op.rightLevel rest
            operators rounds comma level (op.join left right) rest

/-- Reads a filter without operators, with the path behind it. -/
def atom (rounds : Nat) (tokens : List Token) : Option (Term × List Token) :=
  match rounds with
  | 0 => none
  | rounds + 1 => do
    let (base, parts, rest) ← head rounds tokens
    path rounds base parts rest

/-- Reads the start of a filter, with the first part of its path if it begins with one. -/
def head (rounds : Nat) (tokens : List Token) :
    Option (Term × List (Part × Bool) × List Token) :=
  match rounds with
  | 0 => none
  | rounds + 1 =>
    match tokens with
    | .number spelling :: rest => some (.number spelling, [], rest)
    | .variable name :: rest => some (.variable name, [], rest)
    | .stringOpen :: rest => do
      let (pieces, rest) ← pieces rounds rest
      some (.string none pieces, [], rest)
    | .format name :: .stringOpen :: rest => do
      let (pieces, rest) ← pieces rounds rest
      some (.string (some name) pieces, [], rest)
    | .format name :: rest => some (.call name [], [], rest)
    | .symbol "-" :: rest => do
      let (t, rest) ← atom rounds rest
      some (.negate t, [], rest)
    | .symbol "(" :: rest => do
      let (t, rest) ← term rounds true rest
      let rest ← sign ")" rest
      some (t, [], rest)
    | .symbol "[" :: .symbol "]" :: rest => some (.emptyArray, [], rest)
    | .symbol "[" :: rest => do
      let (t, rest) ← term rounds true rest
      let rest ← sign "]" rest
      some (.array t, [], rest)
    | .symbol "\x7b" :: .symbol "\x7d" :: rest => some (.object [], [], rest)
    | .symbol "\x7b" :: rest => do
      let (entries, rest) ← entries rounds rest
      some (.object entries, [], rest)
    | .symbol ".." :: rest => some (.recurse, [], rest)
    | .symbol "." :: .stringOpen :: rest => do
      let (pieces, rest) ← pieces rounds rest
      some (.identity, [(.index (.string none pieces), false)], rest)
    | .symbol "." :: rest => some (.identity, [], rest)
    | .symbol signs :: rest =>
      (memberName? signs).map fun name => (.identity, [(.index (literal name), false)], rest)
    | .word "def" :: .word name :: rest => do
      let (parameters, rest) ← parameters rounds rest
      let rest ← sign ":" rest
      let (body, rest) ← term rounds true rest
      let rest ← sign ";" rest
      let (t, rest) ← term rounds true rest
      some (.define name parameters body t, [], rest)
    | .word "if" :: rest => do
      let (t, rest) ← branches rounds rest
      some (t, [], rest)
    | .word "try" :: rest => do
      let (body, rest) ← atom rounds rest
      match keyword "catch" rest with
      | none => some (.tryCatch body none, [], rest)
      | some rest => do
        let (handler, rest) ← atom rounds rest
        some (.tryCatch body (some handler), [], rest)
    | .word "label" :: .variable name :: rest => do
      let rest ← sign "|" rest
      let (body, rest) ← term rounds true rest
      some (.label name body, [], rest)
    | .word "break" :: .variable name :: rest => some (.break' name, [], rest)
    | .word name :: rest =>
      if name = "reduce" || name = "foreach" then do
        let (source, rest) ← atom rounds rest
        let rest ← keyword "as" rest
        let (pattern, rest) ← pattern rounds rest
        let (arguments, rest) ← optionalArguments rounds rest
        let t : Term := match name, arguments with
          | "reduce", [start, update] => .fold .reduce source pattern start update none
          | "foreach", [start, update] => .fold .foreach source pattern start update none
          | "foreach", [start, update, project] =>
            .fold .foreach source pattern start update (some project)
          | _, _ => .call name arguments
        some (t, [], rest)
      else if keywords.contains name then none
      else do
        let (arguments, rest) ← optionalArguments rounds rest
        some (.call name arguments, [], rest)
    | _ => none

/-- Reads the parts of a path behind those read, the last one first. -/
def path (rounds : Nat) (base : Term) (parts : List (Part × Bool)) (tokens : List Token) :
    Option (Term × List Token) :=
  match rounds with
  | 0 => none
  | rounds + 1 =>
    match tokens with
    | .symbol "?" :: rest =>
      match parts with
      | [] => path rounds (.tryCatch base none) [] rest
      | (part, _) :: others => path rounds base ((part, true) :: others) rest
    | .symbol "[" :: rest => do
      let (part, rest) ← part rounds rest
      path rounds base ((part, false) :: parts) rest
    | .symbol "." :: .stringOpen :: rest => do
      let (pieces, rest) ← pieces rounds rest
      path rounds base ((.index (.string none pieces), false) :: parts) rest
    | .symbol signs :: rest =>
      match memberName? signs with
      | some name => path rounds base ((.index (literal name), false) :: parts) rest
      | none => some (withParts base parts, tokens)
    | _ => some (withParts base parts, tokens)

/-- Reads a part of a path, behind its opening bracket, and the closing one. -/
def part (rounds : Nat) (tokens : List Token) : Option (Part × List Token) :=
  match rounds with
  | 0 => none
  | rounds + 1 =>
    match tokens with
    | .symbol "]" :: rest => some (.each, rest)
    | .symbol ":" :: rest => do
      let (stop, rest) ← term rounds true rest
      let rest ← sign "]" rest
      some (.slice none (some stop), rest)
    | _ => do
      let (start, rest) ← term rounds true tokens
      match rest with
      | .symbol "]" :: rest => some (.index start, rest)
      | .symbol ":" :: .symbol "]" :: rest => some (.slice (some start) none, rest)
      | .symbol ":" :: rest => do
        let (stop, rest) ← term rounds true rest
        let rest ← sign "]" rest
        some (.slice (some start) (some stop), rest)
      | _ => none

/-- Reads the pieces of a string up to its end. -/
def pieces (rounds : Nat) (tokens : List Token) : Option (List Piece × List Token) :=
  match rounds with
  | 0 => none
  | rounds + 1 =>
    match tokens with
    | .stringClose :: rest => some ([], rest)
    | .stringPiece s :: rest => do
      let (others, rest) ← pieces rounds rest
      some (.chars s :: others, rest)
    | .embedOpen :: rest => do
      let (t, rest) ← term rounds true rest
      match rest with
      | .embedClose :: rest => do
        let (others, rest) ← pieces rounds rest
        some (.embedded t :: others, rest)
      | _ => none
    | _ => none

/-- Reads the entries of an object and its closing brace. -/
def entries (rounds : Nat) (tokens : List Token) : Option (List (Term × Term) × List Token) :=
  match rounds with
  | 0 => none
  | rounds + 1 => do
    let (entry, rest) ← entry rounds tokens
    match rest with
    | .symbol "\x7d" :: rest => some ([entry], rest)
    | .symbol "," :: rest => do
      let (others, rest) ← entries rounds rest
      some (entry :: others, rest)
    | _ => none

/-- Reads one entry of an object: a name, with a filter for the content or without. -/
def entry (rounds : Nat) (tokens : List Token) : Option ((Term × Term) × List Token) :=
  match rounds with
  | 0 => none
  | rounds + 1 => do
    let (name, rest) ← entryName rounds tokens
    match rest with
    | .symbol ":" :: rest => do
      let (content, rest) ← term rounds false rest
      some ((name, content), rest)
    | _ =>
      match name with
      | .variable x => some ((literal x, .variable x), rest)
      | _ => some ((name, .path .identity [(.index name, false)]), rest)

/-- Reads the name of an entry. -/
def entryName (rounds : Nat) (tokens : List Token) : Option (Term × List Token) :=
  match rounds with
  | 0 => none
  | rounds + 1 =>
    match tokens with
    | .variable name :: rest => some (.variable name, rest)
    | .word name :: rest => some (literal name, rest)
    | .stringOpen :: rest => do
      let (pieces, rest) ← pieces rounds rest
      some (.string none pieces, rest)
    | .format name :: .stringOpen :: rest => do
      let (pieces, rest) ← pieces rounds rest
      some (.string (some name) pieces, rest)
    | .symbol "(" :: rest => do
      let (t, rest) ← term rounds true rest
      let rest ← sign ")" rest
      some (t, rest)
    | _ => none

/-- Reads the branches of a conditional, behind its first word, and its end. -/
def branches (rounds : Nat) (tokens : List Token) : Option (Term × List Token) :=
  match rounds with
  | 0 => none
  | rounds + 1 => do
    let (condition, rest) ← term rounds true tokens
    let rest ← keyword "then" rest
    let (yes, rest) ← term rounds true rest
    match rest with
    | .word "end" :: rest => some (.ifThenElse condition yes .identity, rest)
    | .word "elif" :: rest => do
      let (no, rest) ← branches rounds rest
      some (.ifThenElse condition yes no, rest)
    | .word "else" :: rest => do
      let (no, rest) ← term rounds true rest
      let rest ← keyword "end" rest
      some (.ifThenElse condition yes no, rest)
    | _ => none

/-- Reads the arguments of a call, if there are any. -/
def optionalArguments (rounds : Nat) (tokens : List Token) : Option (List Term × List Token) :=
  match rounds with
  | 0 => none
  | rounds + 1 =>
    match tokens with
    | .symbol "(" :: rest => arguments rounds rest
    | _ => some ([], tokens)

/-- Reads arguments and the closing parenthesis. -/
def arguments (rounds : Nat) (tokens : List Token) : Option (List Term × List Token) :=
  match rounds with
  | 0 => none
  | rounds + 1 => do
    let (t, rest) ← term rounds true tokens
    match rest with
    | .symbol ")" :: rest => some ([t], rest)
    | .symbol ";" :: rest => do
      let (others, rest) ← arguments rounds rest
      some (t :: others, rest)
    | _ => none

/-- Reads the parameters of a definition, if there are any. -/
def parameters (rounds : Nat) (tokens : List Token) : Option (List String × List Token) :=
  match rounds with
  | 0 => none
  | rounds + 1 =>
    match tokens with
    | .symbol "(" :: rest => parameterList rounds rest
    | _ => some ([], tokens)

/-- Reads parameters and the closing parenthesis.  The name of a value begins with a dollar sign. -/
def parameterList (rounds : Nat) (tokens : List Token) : Option (List String × List Token) :=
  match rounds with
  | 0 => none
  | rounds + 1 => do
    let (name, rest) ← match tokens with
      | .word name :: rest => some (name, rest)
      | .variable name :: rest => some ("$" ++ name, rest)
      | _ => none
    match rest with
    | .symbol ")" :: rest => some ([name], rest)
    | .symbol ";" :: rest => do
      let (others, rest) ← parameterList rounds rest
      some (name :: others, rest)
    | _ => none

/-- Reads a pattern. -/
def pattern (rounds : Nat) (tokens : List Token) : Option (Pattern × List Token) :=
  match rounds with
  | 0 => none
  | rounds + 1 =>
    match tokens with
    | .variable name :: rest => some (.variable name, rest)
    | .symbol "[" :: rest => do
      let (items, rest) ← patternItems rounds rest
      some (.array items, rest)
    | .symbol "\x7b" :: rest => do
      let (entries, rest) ← patternEntries rounds rest
      some (.object entries, rest)
    | _ => none

/-- Reads the items of a pattern and the closing bracket. -/
def patternItems (rounds : Nat) (tokens : List Token) : Option (List Pattern × List Token) :=
  match rounds with
  | 0 => none
  | rounds + 1 => do
    let (item, rest) ← pattern rounds tokens
    match rest with
    | .symbol "]" :: rest => some ([item], rest)
    | .symbol "," :: rest => do
      let (others, rest) ← patternItems rounds rest
      some (item :: others, rest)
    | _ => none

/-- Reads the entries of a pattern and the closing brace. -/
def patternEntries (rounds : Nat) (tokens : List Token) :
    Option (List (Term × Pattern) × List Token) :=
  match rounds with
  | 0 => none
  | rounds + 1 => do
    let (name, rest) ← entryName rounds tokens
    let (entry, rest) ← match rest with
      | .symbol ":" :: rest => do
        let (content, rest) ← pattern rounds rest
        some ((name, content), rest)
      | _ =>
        match name with
        | .variable x => some ((literal x, Pattern.variable x), rest)
        | _ => none
    match rest with
    | .symbol "\x7d" :: rest => some ([entry], rest)
    | .symbol "," :: rest => do
      let (others, rest) ← patternEntries rounds rest
      some (entry :: others, rest)
    | _ => none

end

/-- The filter that tokens write. -/
def ofTokens? (tokens : List Token) : Option Term :=
  match term (10 * tokens.length + 10) true tokens with
  | some (t, []) => some t
  | _ => none

/-- The filter that a text writes. -/
def parse? (text : String) : Option Term := (Token.tokens? text).bind ofTokens?

end Grammar
end RecordCheck.Filter
