import RecordCheck.Files.Tree
import RecordCheck.Files.Pattern
set_option autoImplicit false

/-!
# Files: what a pattern finds

A pattern is expanded directory by directory, the entries of each in the order of their names.  A
component that starts with a point also finds the point itself and the two points, before all
entries; the two points come first.  A directory that cannot be listed gives an error in place of
what would have been found within it.
-/

namespace RecordCheck.Files

/-- The order of entries. -/
def entryLe (a b : String × Node) : Bool := !(b.1 < a.1)

/-- The entries of a node, in the order of their names. -/
def Node.sortedEntries : Node → List (String × Node)
  | .file _ => []
  | .directory entries => entries.mergeSort entryLe

theorem Node.sizeOf_lt_of_mem_sortedEntries {node child : Node} {name : String}
    (h : (name, child) ∈ node.sortedEntries) : sizeOf child < sizeOf node := by
  cases node with
  | file => simp [Node.sortedEntries] at h
  | directory entries =>
    have inside : (name, child) ∈ entries := (List.mem_mergeSort).1 h
    have := List.sizeOf_lt_of_mem inside
    simp only [Prod.mk.sizeOf_spec] at this
    simp only [Node.directory.sizeOf_spec]
    omega

/-- The path of an entry: the working directory is not written. -/
def entryPath (path name : String) : String := if isHere path then name else join path name

/-- A directory could not be listed, and why. -/
structure ListingError where
  path : String
  error : FileError
  deriving DecidableEq, Repr, Inhabited

/-- What a pattern finds: a path, or a directory on the way that cannot be listed. -/
abbrev Found : Type := Except ListingError String

/-- Why the directory that a path leads to cannot be listed, if so. -/
def FileSystem.refusal? (files : FileSystem) (path : String) : Option ListingError :=
  match files.locate path with
  | .error e => some ⟨path, e⟩
  | .ok location =>
    if location ∈ files.unlisted then some ⟨path, .permissionDenied⟩ else none

/-- What a pattern finds where it ends. -/
def found (onlyDirectories : Bool) (path : String) (node : Node) : List Found :=
  if onlyDirectories && !node.isDirectory then [] else [.ok path]

/-- The names of points that a component finds, in order. -/
def Component.points (c : Component) : List String :=
  if c.startsWithPoint then ["..", "."].filter c.matchesName else []

mutual

/-- What components find within what a path leads to. -/
def FileSystem.within (files : FileSystem) (onlyDirectories : Bool) (components : List Component)
    (path : String) (node : Node) : List Found :=
  match components with
  | [] => []
  | .literal name :: rest =>
    let next := entryPath path name
    if (name == "." || name == "..") && !node.isDirectory then []
    else
      match files.node? next with
      | none => []
      | some node => files.at onlyDirectories rest next node
  | c :: rest =>
    if node.isDirectory then
      match files.refusal? path with
      | some e => [.error e]
      | none =>
        (c.points.map (join path)).flatMap (fun next =>
            match files.node? next with
            | none => []
            | some node => files.at onlyDirectories rest next node)
          ++ node.sortedEntries.attach.flatMap fun ⟨(name, child), _⟩ =>
            files.entry onlyDirectories (c :: rest) (entryPath path name) name child
    else []
  termination_by (components.length, sizeOf node, 0)
  decreasing_by
    · exact Prod.Lex.left _ _ (by simp only [List.length_cons]; omega)
    · exact Prod.Lex.left _ _ (by simp only [List.length_cons]; omega)
    · exact Prod.Lex.right _ (Prod.Lex.left _ _ (Node.sizeOf_lt_of_mem_sortedEntries ‹_›))

/-- What components find, the next of them within a node that a path leads to. -/
def FileSystem.at (files : FileSystem) (onlyDirectories : Bool) (components : List Component)
    (path : String) (node : Node) : List Found :=
  match components with
  | [] => found onlyDirectories path node
  | c :: rest => files.within onlyDirectories (c :: rest) path node
  termination_by (components.length, sizeOf node, 1)
  decreasing_by exact Prod.Lex.right _ (Prod.Lex.right _ (by omega))

/-- What components find, the first of them the name of a node. -/
def FileSystem.entry (files : FileSystem) (onlyDirectories : Bool) (components : List Component)
    (path name : String) (node : Node) : List Found :=
  match components with
  | [] => []
  | .anyNames :: [] =>
    if node.isDirectory then .ok path :: files.within onlyDirectories [.anyNames] path node else []
  | .anyNames :: c :: rest =>
    (if c.matchesName name then files.at onlyDirectories rest path node else [])
      ++ files.within onlyDirectories (.anyNames :: c :: rest) path node
  | c :: rest => if c.matchesName name then files.at onlyDirectories rest path node else []
  termination_by (components.length, sizeOf node, 1)
  decreasing_by
    · exact Prod.Lex.right _ (Prod.Lex.right _ (by omega))
    · exact Prod.Lex.left _ _ (by simp only [List.length_cons]; omega)
    · exact Prod.Lex.right _ (Prod.Lex.right _ (by omega))
    · exact Prod.Lex.left _ _ (by simp only [List.length_cons]; omega)

end

section

variable (files : FileSystem) (onlyDirectories : Bool) (rest : List Component) {path : String}
  {node : Node}

/-- A name without wildcards is followed without a look at the directory. -/
theorem FileSystem.within_literal {name : String} {next : Node}
    (hname : (name == "." || name == "..") = false)
    (hnext : files.node? (entryPath path name) = some next) :
    files.within onlyDirectories (.literal name :: rest) path node =
      files.at onlyDirectories rest (entryPath path name) next := by
  rw [within, hname, hnext]
  rfl

/-- A component with wildcards finds an error in a directory that cannot be listed. -/
theorem FileSystem.within_refused {tokens : List Token} {e : ListingError}
    (hdirectory : node.isDirectory = true) (hrefused : files.refusal? path = some e) :
    files.within onlyDirectories (.wild tokens :: rest) path node = [.error e] := by
  rw [within, if_pos hdirectory, hrefused]
  exact nofun

/-- What a component that does not find points finds within a directory that can be listed. -/
theorem FileSystem.within_wild {tokens : List Token} (hdirectory : node.isDirectory = true)
    (hlisted : files.refusal? path = none) (hpoints : (Component.wild tokens).points = []) :
    files.within onlyDirectories (.wild tokens :: rest) path node =
      node.sortedEntries.flatMap fun entry => files.entry onlyDirectories (.wild tokens :: rest)
        (entryPath path entry.1) entry.1 entry.2 := by
  rw [within, if_pos hdirectory, hlisted, hpoints]
  · simp only [List.flatMap_subtype, List.unattach_attach]
    rfl
  · exact nofun

end

/-- What a pattern finds, in order. -/
def FileSystem.expand (files : FileSystem) (pattern : Pattern) : List Found :=
  let path := if pattern.absolute then "/" else "."
  match files.node? path with
  | none => []
  | some node => files.within pattern.onlyDirectories pattern.components path node

end RecordCheck.Files
