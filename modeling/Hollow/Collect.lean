import Hollow.Context

/-!
# Choosing files

Which files below a directory are judged: those with a language, outside of hidden, dependency and
build directories, that no pattern of the configuration excludes, and that are no tests, should
tests be left out.  The directory that the search starts from is never skipped for its name.
-/

namespace Hollow

/-- Directories that hold dependencies or results of a build. -/
def skippedDirectories : List String := ["vendor", "node_modules", "target"]

/-- Whether a directory below the start is skipped, by its name as it is shown. -/
def skipsDirectory (name : RawText) : Bool :=
  (Utf8.lossy name).toList.head? == some '.' || skippedDirectories.contains (Utf8.lossy name)

/-- Whether `part` stands somewhere in a list. -/
def occursIn (part : List Char) : List Char → Bool
  | [] => part.isEmpty
  | c :: cs => part.isPrefixOf (c :: cs) || occursIn part cs

/-- Whether a file looks like a test by its name or place.  What is no text looks like nothing. -/
def isTestFile (path : RawText) : Bool :=
  let name := (((PathName.fileName path).bind Utf8.decode).getD "").toList
  let stem := name.takeWhile (· != '.')
  "_test.go".toList.isSuffixOf name || occursIn ".test.".toList name ||
    occursIn ".spec.".toList name || "test_".toList.isPrefixOf stem ||
    "_test".toList.isSuffixOf stem || "Test".toList.isSuffixOf stem ||
    "Tests".toList.isSuffixOf stem ||
    (PathName.components path).any fun c =>
      (Utf8.decode c).any ["test", "tests", "__tests__"].contains

/-- The order of files: by their paths, component by component. -/
def fileOrder (a b : List RawText) : Bool := PathName.compareComponents a b != .gt

/-- A path given by components. -/
def relativePath (components : List RawText) : RawText :=
  List.intercalate [PathName.slash] components

/-- The path of a file below the directory that the search starts from. -/
def pathBelow (start : RawText) (components : List RawText) : RawText :=
  if components.isEmpty then start else PathName.join start (relativePath components)

/-- Whether a file below the start is chosen. -/
def Context.chooses (ctx : Context) (c : Config) (exclusions : Config.Exclusions) (start : RawText)
    (components : List RawText) : Bool :=
  ctx.supports (pathBelow start components) && !exclusions.isMatch (relativePath components) &&
    (c.includesTestFiles || !isTestFile (relativePath components))

/-- The chosen files at or below a path, given by their components below it, in order. -/
def collectBelow (w : Workspace) (ctx : Context) (c : Config) (start : RawText) :
    Except Failure (List (List RawText)) :=
  match c.exclusions with
  | .error failure => .error failure
  | .ok exclusions =>
    match w.resolve start with
    | .error problem => .error (.unsearchable start problem)
    | .ok (_, tree) =>
      .ok ((((tree.files skipsDirectory).map (·.1)).filter
        (ctx.chooses c exclusions start)).mergeSort fileOrder)

/-- The paths of the chosen files at or below a path, in order. -/
def collectFiles (w : Workspace) (ctx : Context) (c : Config) (start : RawText) :
    Except Failure (List RawText) :=
  (collectBelow w ctx c start).map fun files => files.map (pathBelow start)

end Hollow
