set_option autoImplicit false

/-!
# Command: options

How the words of a command line are read against the options that a command declares.  A word that
starts with two hyphens names an option, or gives its value too behind an equals sign; behind a
single hyphen stand one-letter options.  Other words are values for the option before them.
-/

namespace RecordCheck.Command

/-- Why words are no command. -/
inductive Usage where
  /-- nothing was asked for -/
  | commandMissing
  /-- help was asked for -/
  | help
  | unknownCommand
  | unknownArgument
  /-- a value for an option that takes none -/
  | surplusValue
  /-- no value for an option that takes one, or an empty one where a path has to stand -/
  | valueMissing
  /-- an option that may be given once is repeated -/
  | repeated
  | requiredMissing
  deriving DecidableEq, Repr, Inhabited

/-- The message of a usage error. -/
def Usage.message : Usage → String
  | .commandMissing => "a command is required"
  | .help => "help was asked for"
  | .unknownCommand => "there is no such command"
  | .unknownArgument => "there is no such argument"
  | .surplusValue => "an option was given a value that it does not take"
  | .valueMissing => "an option lacks its value"
  | .repeated => "an option was given twice"
  | .requiredMissing => "an option that is required was not given"

/-- How many values an option takes each time. -/
inductive Arity where
  | none
  | one
  /-- one or more; such an option may be repeated -/
  | many
  deriving DecidableEq, Repr, Inhabited

/-- A declared option. -/
structure Opt where
  long : String
  short : Option Char
  arity : Arity
  /-- the values are paths, which are not empty -/
  path : Bool
  deriving DecidableEq, Repr, Inhabited

/-- The option that asks for help. -/
def Opt.help : Opt := ⟨"help", some 'h', .none, false⟩

/-- An option as it was given, with its values. -/
structure Given where
  opt : Opt
  values : List String
  deriving DecidableEq, Repr, Inhabited

/-- What has been read: the options that are complete, and one that may still get values. -/
structure Reading where
  given : List Given
  pending : Option Given
  /-- the next word may be a value of the pending option -/
  wanting : Bool
  deriving DecidableEq, Repr, Inhabited

namespace Reading

/-- Adds an option that is complete. -/
def add (given : List Given) (g : Given) : Except Usage (List Given) :=
  if g.opt.arity ≠ .none ∧ g.values = [] then .error .valueMissing
  else if g.opt.arity ≠ .many ∧ given.any (·.opt == g.opt) then .error .repeated
  else if g.opt.path ∧ g.values.contains "" then .error .valueMissing
  else .ok (given ++ [g])

/-- All options that were read, the pending one complete. -/
def complete (r : Reading) : Except Usage (List Given) :=
  match r.pending with
  | none => .ok r.given
  | some g => add r.given g

/-- Reads an option that comes with all it takes. -/
def take (g : Given) (r : Reading) : Except Usage Reading :=
  match r.complete with
  | .error e => .error e
  | .ok given =>
    if g.opt = Opt.help then .error .help
    else (add given g).map fun given => ⟨given, none, false⟩

/-- Reads an option whose values follow. -/
def await (opt : Opt) (r : Reading) : Except Usage Reading :=
  r.complete.map fun given => ⟨given, some ⟨opt, []⟩, true⟩

/-- Reads a word that is no option. -/
def value (word : String) (r : Reading) : Except Usage Reading :=
  match r.pending, r.wanting with
  | some g, true =>
    let longer : Given := { g with values := g.values ++ [word] }
    .ok { r with pending := some longer, wanting := g.opt.arity = .many }
  | _, _ => .error .unknownArgument

/-- Reads an option by its name, with the value that an equals sign may attach. -/
def long (opts : List Opt) (name : String) (attached : Option String) (r : Reading) :
    Except Usage Reading :=
  match opts.find? (·.long == name) with
  | none => .error .unknownArgument
  | some opt =>
    match opt.arity, attached with
    | .none, some _ => .error .surplusValue
    | .none, none => r.take ⟨opt, []⟩
    | _, some value => r.take ⟨opt, [value]⟩
    | _, none => r.await opt

/-- Reads one-letter options.  What follows one that takes a value is its value, an equals sign
apart. -/
def short (opts : List Opt) (r : Reading) : List Char → Except Usage Reading
  | [] => .ok r
  | c :: rest =>
    match opts.find? (·.short == some c) with
    | none => .error .unknownArgument
    | some opt =>
      if opt.arity = .none then
        match r.take ⟨opt, []⟩ with
        | .error e => .error e
        | .ok r => short opts r rest
      else
        match rest with
        | [] => r.await opt
        | '=' :: value => r.take ⟨opt, [String.ofList value]⟩
        | value => r.take ⟨opt, [String.ofList value]⟩

end Reading

/-- What a word is by its form. -/
inductive Word where
  /-- two hyphens and nothing more: only values follow -/
  | break'
  | long (name : String) (attached : Option String)
  | short (letters : List Char)
  | plain (text : String)
  deriving DecidableEq, Repr, Inhabited

/-- The form of a word. -/
def Word.ofString (word : String) : Word :=
  match word.toList with
  | '-' :: '-' :: rest =>
    if rest.isEmpty then .break'
    else
      let name := String.ofList (rest.takeWhile (· != '='))
      match rest.dropWhile (· != '=') with
      | [] => .long name none
      | _ :: value => .long name (some (String.ofList value))
  | '-' :: c :: rest => .short (c :: rest)
  | _ => .plain word

/-- Reads a word that others follow or not (`last`). -/
def Reading.word (opts : List Opt) (last : Bool) (r : Reading) : Word → Except Usage Reading
  | .break' => if last then .ok r else .error .unknownArgument
  | .long name attached => r.long opts name attached
  | .short letters => r.short opts letters
  | .plain text => r.value text

/-- Reads words against options. -/
def readWords (opts : List Opt) (r : Reading) : List String → Except Usage (List Given)
  | [] => r.complete
  | word :: rest =>
    match r.word opts rest.isEmpty (.ofString word) with
    | .error e => .error e
    | .ok r => readWords opts r rest

/-- The options that words give, of those declared. -/
def readOptions (opts : List Opt) (words : List String) : Except Usage (List Given) :=
  readWords (Opt.help :: opts) ⟨[], none, false⟩ words

/-- The option was given. -/
def isGiven (opt : Opt) (given : List Given) : Bool := given.any (·.opt == opt)

/-- All values of an option, in order. -/
def valuesOf (opt : Opt) (given : List Given) : List String :=
  (given.filter (·.opt == opt)).flatMap Given.values

end RecordCheck.Command
