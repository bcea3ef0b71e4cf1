import Hollow.Collect
import Hollow.Command.Args
import Hollow.Command.Target
import Hollow.Locate
import Hollow.ScanReport

/-!
# Carrying out a command

A command looks at the workspace and answers with a text and an exit code: 0 for success, 1 when
it found what it was told to fail on or did not find what it was asked for, 2 for an error.
-/

namespace Hollow

/-- What a command answers. -/
structure Answer where
  exitCode : Nat
  output : String
  deriving DecidableEq, Repr

/-- Exit code of a command that succeeds. -/
def exitSuccess : Nat := 0

/-- Exit code of a command that fails on what it found. -/
def exitFailed : Nat := 1

/-- Exit code of a command that cannot be carried out. -/
def exitError : Nat := 2

namespace Command

/-! ## Configuration -/

/-- Names of configuration files in the working directory, in the order of preference. -/
def configNames : List String := ["emptycheck.yaml", ".emptycheck.yaml", "emptycheck.yml"]

/-- Read a configuration file's text. -/
def configOfText (path : String) (text : Except FileProblem String) :
    Except Failure (Config × Option String) :=
  match text with
  | .error .notText => .error (.badConfig path none)
  | .error problem => .error (.badConfig path (some problem))
  | .ok content =>
    match Config.parse content with
    | none => .error (.badConfig path none)
    | some config => .ok (config, some path)

/-- The text of the user's configuration file. -/
def decodeText (bytes : Source) : Except FileProblem String :=
  match Utf8.decode bytes with
  | none => .error .notText
  | some text => .ok text

/-- The configuration in force and the file it comes from: the one given, the first one found in
the working directory, the user's own, or none. -/
def loadConfig (w : Workspace) (explicit : Option String) :
    Except Failure (Config × Option String) :=
  match explicit.or (configNames.find? fun name => w.isFile (Utf8.encode name)) with
  | some path => configOfText path (w.readText (Utf8.encode path))
  | none =>
    match w.userConfig with
    | some (path, bytes) => configOfText path (decodeText bytes)
    | none => .ok ({}, none)

/-- Load and check the configuration. -/
def validConfig (w : Workspace) (explicit : Option String) :
    Except Failure (Config × Option String) := do
  let (config, path) ← loadConfig w explicit
  config.validate LanguageSet.builtin.ids
  pure (config, path)

/-- Check the name of an output format. -/
def checkFormat (format : String) : Except Failure Unit :=
  if outputFormats.contains format then .ok () else .error (.invalidFormat format)

/-- The text of reports in a format. -/
def reportText (i : Invocation) (config : Option String) (units : List UnitReport) : String :=
  if i.format = "json" then jsonReport i.subject config units
  else prettyReport i.subject config units i.showAll false

/-! ## Commands -/

/-- The absolute path of a place below the working directory. -/
def absolutePath (w : Workspace) (components : List RawText) : RawText :=
  pathBelow w.location components

/-- The context of a scan, and the absolute paths of the files to judge: the chosen ones below a
directory, or a single file whatever it is. -/
def scanFiles (w : Workspace) (i : Invocation) (config : Config) :
    Except Failure (Context × List RawText) :=
  match w.resolve (Utf8.encode i.subject) with
  | .error problem => .error (.inaccessible i.subject problem)
  | .ok (place, tree) =>
    let base := absolutePath w (if tree.isDirectory then place else place.dropLast)
    match Context.ofConfig base config with
    | .error failure => .error failure
    | .ok ctx =>
      if tree.isDirectory then
        (collectFiles w ctx config (absolutePath w place)).map fun files => (ctx, files)
      else .ok (ctx, [absolutePath w place])

/-- Judge every supported file under a path. -/
def scan (w : Workspace) (i : Invocation) : Except Failure Answer := do
  checkFormat i.format
  let (config, configPath) ← validConfig w i.config
  let (ctx, files) ← scanFiles w i config
  let units := ctx.analyzeFilesParallel w files
  pure { output := reportText i configPath units
         exitCode :=
          if i.failOnEmpty && decide (0 < (totalSummary units).empty) then exitFailed
          else exitSuccess }

/-- Show the empty declaration at a position. -/
def locate (w : Workspace) (i : Invocation) : Except Failure Answer := do
  checkFormat i.format
  let target ← Target.parse i.subject
  let (config, _) ← validConfig w i.config
  let ctx ← Context.ofConfig [PathName.dot] config
  let unit ← ctx.analyzeFile w (Utf8.encode target.file)
  let found := unit.report.locateEmpty target.position
  let output :=
    if i.format = "json" then
      (match found with
        | some v => v.toJson.pretty
        | none => Json.Value.null.pretty) ++ "\n"
    else match found with
      | some v => locatedText target.file v false
      | none => ""
  pure { output, exitCode := if found.isSome then exitSuccess else exitFailed }

/-- Judge a declaration tree given as JSON. -/
def judgeTree (w : Workspace) (i : Invocation) : Except Failure Answer := do
  checkFormat i.format
  let (config, configPath) ← validConfig w i.config
  let text ← (w.readText (Utf8.encode i.subject)).mapError
    (.unreadable (Utf8.encode i.subject))
  let unit ← (SourceUnit.ofJson text).mapError .json
  let report ← (classifyUnit config.options unit).mapError .fault
  pure { output := reportText i configPath [report], exitCode := exitSuccess }

/-- Carry out a command. -/
def run (w : Workspace) (i : Invocation) : Except Failure Answer :=
  match i.action with
  | .scan => scan w i
  | .at => locate w i
  | .tree => judgeTree w i

end Command

end Hollow
