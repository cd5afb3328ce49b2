import RecordCheck.Files.Path
import RecordCheck.Table
set_option autoImplicit false

/-!
# Files: the tree

Files and directories as a tree, and what a path leads to in it.  A path is followed from the root
or from the working directory, name by name, and each step needs a directory to stand in.
-/

namespace RecordCheck.Files

/-- The bytes of a file. -/
abbrev Bytes : Type := List UInt8

/-- Why an operation on files fails. -/
inductive FileError where
  | notFound
  | permissionDenied
  | notDirectory
  | isDirectory
  | alreadyExists
  | nameTooLong
  | nullInName
  | notText
  deriving DecidableEq, Repr, Inhabited

/-- The message of an error. -/
def FileError.message : FileError → String
  | .notFound => "No such file or directory (os error 2)"
  | .permissionDenied => "Permission denied (os error 13)"
  | .notDirectory => "Not a directory (os error 20)"
  | .isDirectory => "Is a directory (os error 21)"
  | .alreadyExists => "File exists (os error 17)"
  | .nameTooLong => "File name too long (os error 36)"
  | .nullInName => "file name contained an unexpected NUL byte"
  | .notText => "stream did not contain valid UTF-8"

/-- A file, or a directory with its entries. -/
inductive Node where
  | file (content : Bytes)
  | directory (entries : List (String × Node))
  deriving Repr, Inhabited

/-- Where a node stands: the names that lead to it from the root. -/
abbrev Location : Type := List String

namespace Node

/-- The node is a directory. -/
def isDirectory : Node → Bool
  | .directory _ => true
  | .file _ => false

/-- The node at a location. -/
def find? : Location → Node → Option Node
  | [], node => some node
  | _ :: _, .file _ => none
  | name :: rest, .directory entries =>
    match Table.find? name entries with
    | some node => find? rest node
    | none => none

/-- The tree with a node at a location.  Directories on the way are made; a file on the way stays
and nothing is put. -/
def put (new : Node) : Location → Node → Node
  | [], _ => new
  | _ :: _, .file content => .file content
  | name :: rest, .directory entries =>
    let old := (Table.find? name entries).getD (.directory [])
    .directory (Table.insert name (put new rest old) entries)

end Node

/-- A tree of files and the location of the working directory. -/
structure FileSystem where
  root : Node
  here : Location
  /-- where the directories stand whose entries may not be listed; paths may lead through them -/
  unlisted : List Location
  deriving Repr, Inhabited

namespace FileSystem

variable (files : FileSystem)

/-- How many bytes a name may have. -/
def nameLimit : Nat := 255

/-- How many bytes a path has at least that is too long. -/
def pathLimit : Nat := 4096

/-- The location that a name leads to from a directory. -/
def step (location : Location) (name : String) : Except FileError Location :=
  match files.root.find? location with
  | none => .error .notFound
  | some (.file _) => .error .notDirectory
  | some (.directory entries) =>
    if isIdle name then .ok location
    else if name = ".." then .ok location.dropLast
    else if nameLimit < name.utf8ByteSize then .error .nameTooLong
    else if (Table.find? name entries).isSome then .ok (location ++ [name])
    else .error .notFound

/-- The location that names lead to from a directory. -/
def follow (location : Location) : List String → Except FileError Location
  | [] => .ok location
  | name :: rest =>
    match files.step location name with
    | .error e => .error e
    | .ok next => follow next rest

/-- Where a path starts, if it is one. -/
def start (path : String) : Except FileError Location :=
  if path.toList.contains '\x00' then .error .nullInName
  else if path.isEmpty then .error .notFound
  else if pathLimit ≤ path.utf8ByteSize then .error .nameTooLong
  else .ok (if isAbsolute path then [] else files.here)

/-- The location that a path leads to. -/
def locate (path : String) : Except FileError Location :=
  match files.start path with
  | .error e => .error e
  | .ok location => files.follow location (names path)

/-- What a path leads to, or why it leads nowhere. -/
def node (path : String) : Except FileError Node :=
  match files.locate path with
  | .error e => .error e
  | .ok location =>
    match files.root.find? location with
    | none => .error .notFound
    | some node => .ok node

/-- What a path leads to. -/
def node? (path : String) : Option Node := (files.node path).toOption

/-- The path leads to a directory. -/
def isDirectory (path : String) : Bool := (files.node? path).any Node.isDirectory

/-- The text of bytes, if they are UTF-8. -/
def textOf? (bytes : Bytes) : Option String := String.fromUTF8? ⟨bytes.toArray⟩

/-- The text of the file that a path leads to. -/
def read (path : String) : Except FileError String :=
  match files.node path with
  | .error e => .error e
  | .ok (.directory _) => .error .isDirectory
  | .ok (.file content) =>
    match textOf? content with
    | some text => .ok text
    | none => .error .notText

/-- Where a new node would stand: the directory around it and its name there, none if the path ends
at a directory by its form.  `openEnd` says that a slash follows the name. -/
structure Target where
  directory : Location
  name : Option String
  openEnd : Bool
  deriving DecidableEq, Repr, Inhabited

/-- Where a path would put a new node. -/
def target (path : String) : Except FileError Target :=
  match files.start path with
  | .error e => .error e
  | .ok location =>
    match (names path).reverse.dropWhile (· == "") with
    | [] => .ok ⟨location, none, true⟩
    | last :: before =>
      match files.follow location before.reverse with
      | .error e => .error e
      | .ok directory =>
        match files.step directory "" with
        | .error e => .error e
        | .ok _ =>
          if last = "." ∨ last = ".." then .ok ⟨directory, none, endsOpen path⟩
          else if nameLimit < last.utf8ByteSize then .error .nameTooLong
          else .ok ⟨directory, some last, endsOpen path⟩

/-- The files with a node at a location. -/
def put (location : Location) (new : Node) : FileSystem :=
  { files with root := Node.put new location files.root }

/-- The location that the names of a path lead to by their form, whatever stands on the way. -/
def place (path : String) : Location :=
  (names path).foldl
    (fun location name =>
      if isIdle name then location
      else if name = ".." then location.dropLast
      else location ++ [name])
    (if isAbsolute path then [] else files.here)

/-- The files with a node at the place of a path, unless something stands there. -/
def observe (path : String) (new : Node) : FileSystem :=
  match files.root.find? (files.place path) with
  | some _ => files
  | none => files.put (files.place path) new

/-- The files with a new directory at a path. -/
def makeDirectory (path : String) : Except FileError FileSystem :=
  match files.target path with
  | .error e => .error e
  | .ok ⟨_, none, _⟩ => .error .alreadyExists
  | .ok ⟨directory, some name, _⟩ =>
    match files.root.find? (directory ++ [name]) with
    | some _ => .error .alreadyExists
    | none => .ok (files.put (directory ++ [name]) (.directory []))

/-- The files with a directory at a path, if there was none. -/
def ensureDirectory (path : String) : Except FileError FileSystem :=
  match files.makeDirectory path with
  | .ok files => .ok files
  | .error e => if files.isDirectory path then .ok files else .error e

/-- Makes a directory at the path that names write, the last one first, and at all the paths that it
takes to get there.  The empty path is there already.  If one cannot be made, those that were made
before it stay. -/
def makeDirectories (files : FileSystem) (reversed : List String) :
    FileSystem × Except FileError Unit :=
  let path := ofReversed reversed
  if path.isEmpty then (files, .ok ())
  else
    match files.makeDirectory path with
    | .ok made => (made, .ok ())
    | .error .notFound =>
      match _h : parentNames? reversed with
      | none => (files, .error .notFound)
      | some parent =>
        match makeDirectories files parent with
        | (made, .error e) => (made, .error e)
        | (made, .ok _) =>
          match made.ensureDirectory path with
          | .error e => (made, .error e)
          | .ok made => (made, .ok ())
    | .error e => (files, if files.isDirectory path then .ok () else .error e)
  termination_by reversed.length
  decreasing_by exact length_parentNames?_lt _h

/-- The files with a file at a path that holds a text.  An old file is replaced. -/
def write (path text : String) : Except FileError FileSystem :=
  match files.target path with
  | .error e => .error e
  | .ok ⟨_, none, _⟩ => .error .isDirectory
  | .ok ⟨_, some _, true⟩ => .error .isDirectory
  | .ok ⟨directory, some name, false⟩ =>
    match files.root.find? (directory ++ [name]) with
    | some (.directory _) => .error .isDirectory
    | _ => .ok (files.put (directory ++ [name]) (.file text.toUTF8.data.toList))

end FileSystem
end RecordCheck.Files
