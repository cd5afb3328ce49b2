import RecordCheck.Command.Run
import RecordCheck.Filter.Named
set_option autoImplicit false

/-!
# The program

The words of the command line are parsed, what the paths among them lead to is looked at, and the
command is run on what was seen.  Then its texts are printed and its file is written.  Patterns are
matched against the paths that standard input lists, one on each line.
-/

namespace RecordCheck.Program

/-- What a path leads to, if it leads anywhere. -/
def look (path : String) : IO (Option Files.Node) := do
  match ← (IO.FS.readBinFile path).toBaseIO with
  | .ok bytes => return some (.file bytes.toList)
  | .error (.inappropriateType ..) => return some (.directory [])
  | .error _ => return none

/-- The files with what a path leads to and what stands on the way. -/
def lookAlong (files : Files.FileSystem) (path : String) : IO Files.FileSystem := do
  let names := Files.names path
  let mut files := files
  for count in List.range names.length do
    let before := Files.ofReversed (names.take (count + 1)).reverse
    if let some node ← look before then files := files.observe before node
  return files

/-- The paths that standard input lists. -/
def listedPaths : IO (List String) := do
  let text ← (← IO.getStdin).readToEnd
  return (Text.lines text.toList).map String.ofList

/-- The files that a command may look at. -/
def filesFor (command : Command) : IO Files.FileSystem := do
  let here := (Files.names (toString (← IO.currentDir))).filter fun name => !Files.isIdle name
  let root := Files.Node.put (.directory []) here (.directory [])
  let listed ← if command.inputs.any Files.isPattern then listedPaths else pure []
  let paths := command.inputs.filter (fun path => !Files.isPattern path) ++ listed
    ++ command.output?.toList
  paths.foldlM lookAlong ⟨root, here, []⟩

/-- Writes a text to a file and makes the directories that lead there. -/
def writeOut (path text : String) : IO Unit := do
  if let some parent := Files.parent? path then
    unless parent.isEmpty do IO.FS.createDirAll parent
  IO.FS.writeFile path text

end RecordCheck.Program

open RecordCheck in
/-- Runs the command that the words ask for.  The exit code is 0 if all passed, 1 if something
failed, and 2 if the words are no command. -/
def main (words : List String) : IO UInt32 := do
  match Command.parse words with
  | .error .help =>
    for line in Command.helpLines do IO.println line
    return 0
  | .error usage =>
    IO.eprintln usage.message
    return 2
  | .ok command =>
    let outcome := Command.run (← Program.filesFor command) command
    IO.print outcome.stdout
    for line in outcome.stderr do IO.eprintln line
    if let some (path, text) := outcome.written then Program.writeOut path text
    match outcome.verdict with
    | .ok true => return 0
    | .ok false => return 1
    | .error e =>
      IO.eprintln e.message
      return 1
