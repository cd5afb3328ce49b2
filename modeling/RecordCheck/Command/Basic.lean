import RecordCheck.Command.Options
import RecordCheck.Check.Inputs
set_option autoImplicit false

/-!
# Command: the commands

What can be asked for: the declared shapes as JSON, or a check of inputs.
-/

namespace RecordCheck

/-- What to do. -/
inductive Command where
  /-- write the shapes of the given names, or all, to a file or to standard output -/
  | shapes (names : List String) (out : Option String)
  /-- check the records of inputs; `normalize` writes those that passed -/
  | check (inputs : Check.Inputs) (normalize : Bool) (out : Option String)
  deriving DecidableEq, Repr, Inhabited

namespace Command

/-- The file to write to. -/
def outOption : Opt := ⟨"out", some 'o', .one, true⟩

/-- The names of the shapes to write. -/
def onlyOption : Opt := ⟨"only", none, .many, false⟩

/-- The paths and patterns of inputs. -/
def inputOption : Opt := ⟨"input", some 'i', .many, false⟩

/-- Each line of a file is a JSON text. -/
def linewiseOption : Opt := ⟨"ndjson", none, .none, false⟩

/-- The pointer that selects a node of each value. -/
def pointerOption : Opt := ⟨"json-pointer", none, .one, false⟩

/-- The filter that makes documents. -/
def filterOption : Opt := ⟨"jq-expr", none, .one, false⟩

/-- Write the records that passed. -/
def normalizeOption : Opt := ⟨"normalize", none, .none, false⟩

/-- The command that the options of `shapes` give. -/
def ofShapesOptions (given : List Given) : Command :=
  .shapes (valuesOf onlyOption given) (valuesOf outOption given).head?

/-- The command that the options of `check` give; inputs are required. -/
def ofCheckOptions (given : List Given) : Except Usage Command :=
  if isGiven inputOption given then
    .ok (.check
      ⟨valuesOf inputOption given, isGiven linewiseOption given,
        (valuesOf pointerOption given).head?, (valuesOf filterOption given).head?⟩
      (isGiven normalizeOption given) (valuesOf outOption given).head?)
  else .error .requiredMissing

/-- The words that name commands. -/
def commandNames : List String := ["shapes", "check", "help"]

/-- What a request for help with the given words comes to. -/
def helpOn : List String → Usage
  | [] => .help
  | [name] => if commandNames.contains name then .help else .unknownCommand
  | _ => .unknownCommand

/-- What words come to whose first names no command. -/
def misuse (first : String) (rest : List String) : Usage :=
  match Word.ofString first with
  | .break' =>
    match rest with
    | [] => .commandMissing
    | next :: _ => if commandNames.contains next then .unknownArgument else .unknownCommand
  | .long name attached =>
    if name = Opt.help.long then if attached.isSome then .surplusValue else .help
    else .unknownArgument
  | .short letters => if letters.head? = Opt.help.short then .help else .unknownArgument
  | .plain _ => .unknownCommand

/-- The lines of the help. -/
def helpLines : List String :=
  ["shapes [--only NAME...] [--out FILE]",
   "    write the declared record shapes as JSON",
   "check --input PATH... [--ndjson] [--json-pointer POINTER] [--jq-expr FILTER]",
   "      [--normalize] [--out FILE]",
   "    decode tagged records and report those that fail"]

/-- The paths and patterns that a command reads. -/
def inputs : Command → List String
  | .shapes _ _ => []
  | .check inputs _ _ => inputs.patterns

/-- The path that a command may write to. -/
def output? : Command → Option String
  | .shapes _ out => out
  | .check _ _ out => out

/-- The command that the words of a command line ask for. -/
def parse : List String → Except Usage Command
  | [] => .error .commandMissing
  | "shapes" :: words => (readOptions [onlyOption, outOption] words).map ofShapesOptions
  | "check" :: words =>
    match readOptions
        [linewiseOption, pointerOption, filterOption, inputOption, normalizeOption, outOption]
        words with
    | .error e => .error e
    | .ok given => ofCheckOptions given
  | "help" :: words => .error (helpOn words)
  | first :: rest => .error (misuse first rest)

end Command
end RecordCheck
