import Hollow.Command.Run
import Hollow.Tree.Rows

/-!
# The program

Reads the working directory, carries out the command line on it, and prints the answer.  A parser
leaves the syntax tree of a source file beside it, as rows in JSON, in a file of the same name with
`.rows` added.
-/

namespace Hollow

/-- What is added to the name of a source file for the name of the file with its syntax tree. -/
def rowsSuffix : String := ".rows"

/-- The syntax tree that a file of rows holds. -/
def treeOfRows (bytes : ByteArray) : Option Node :=
  (Utf8.decode bytes.toList).bind fun text =>
    match Json.parse text with
    | .ok rows => Node.ofJson rows
    | .error _ => none

/-- Read the entries of a directory with everything below them. -/
partial def loadEntries (entries : Array IO.FS.DirEntry) : IO (List (RawText × FileTree)) := do
  let mut loaded := []
  for entry in entries do
    let data ← entry.path.metadata
    let name := Utf8.encode entry.fileName
    if data.type == .dir then
      loaded := (name, .directory (← loadEntries (← entry.path.readDir))) :: loaded
    else
      let bytes ← IO.FS.readBinFile entry.path
      let tree ← match entries.find? (·.fileName == entry.fileName ++ rowsSuffix) with
        | some rows => pure (treeOfRows (← IO.FS.readBinFile rows.path))
        | none => pure none
      loaded := (name, .file ⟨bytes.toList, tree⟩) :: loaded
  return loaded.reverse

/-- Path and content of the user's own configuration file, if there is one. -/
def loadUserConfig : IO (Option (String × Source)) := do
  let directory := match ← IO.getEnv "XDG_CONFIG_HOME", ← IO.getEnv "HOME" with
    | some directory, _ => some directory
    | none, some home => some (home ++ "/.config")
    | none, none => none
  match directory with
  | none => return none
  | some directory =>
    let path := directory ++ "/" ++ programName ++ "/config.yaml"
    try
      return some (path, (← IO.FS.readBinFile path).toList)
    catch _ => return none

/-- What the program can see. -/
def loadWorkspace : IO Workspace := do
  let here ← IO.currentDir
  return { location := Utf8.encode here.toString
           root := .directory (← loadEntries (← here.readDir))
           userConfig := ← loadUserConfig }

/-- How the program is called. -/
def usageLines : String :=
  "Usage: " ++ programName ++ " [-v] scan <PATH> [-c <CONFIG>] [-f <FORMAT>] [--fail-on-empty] " ++
    "[--show-all]\n       " ++ programName ++ " [-v] at <FILE:LINE:COL> [-c <CONFIG>] " ++
    "[-f <FORMAT>]\n       " ++ programName ++ " [-v] tree <UNIT> [-c <CONFIG>] [-f <FORMAT>] " ++
    "[--show-all]"

end Hollow

open Hollow in
/-- Carry out a command line; the result is the exit code. -/
def main (args : List String) : IO UInt32 := do
  match Args.parse args with
  | .error usage =>
    if usage = .displayVersion then
      IO.println (programName ++ " " ++ programVersion)
      return exitSuccess.toUInt32
    else if usage.isRequested then
      IO.println usageLines
      return exitSuccess.toUInt32
    else
      IO.eprintln usageLines
      return exitError.toUInt32
  | .ok invocation =>
    match Command.run (← loadWorkspace) invocation with
    | .ok answer =>
      IO.print answer.output
      return answer.exitCode.toUInt32
    | .error failure =>
      IO.eprintln ("Error: " ++ failure.message.getD "invalid data file")
      return exitError.toUInt32
