import Hollow.Fault
import Hollow.Glob
import Hollow.Json.Value
import Hollow.Text.Quoted

/-!
# Failures

Why an operation on files, configurations or command lines failed.  A failure keeps its cause;
`Failure.message` is the only place that words it.
-/

namespace Hollow

/-- Why a file could not be read. -/
inductive FileProblem where
  | notFound
  | notDirectory
  | isDirectory
  /-- The content is no well-formed text. -/
  | notText
  deriving DecidableEq, Repr

/-- The words for a file problem. -/
def FileProblem.message : FileProblem → String
  | .notFound => "No such file or directory (os error 2)"
  | .notDirectory => "Not a directory (os error 20)"
  | .isDirectory => "Is a directory (os error 21)"
  | .notText => "stream did not contain valid UTF-8"

/-- Why an operation failed.  Paths of files are kept as the system keeps them, and those of the
command line as they were given. -/
inductive Failure where
  /-- A unit could not be built or judged. -/
  | fault (fault : Fault)
  /-- A JSON text was rejected. -/
  | json (problem : Json.Problem)
  /-- A YAML text was rejected. -/
  | yaml
  /-- A set of languages was to be restricted to one that is not in it. -/
  | unknownLanguage (id : String) (known : List String)
  /-- A configuration names a language that does not exist. -/
  | unknownConfigLanguage (id : String) (known : List String)
  /-- A configuration holds a pattern that cannot be read. -/
  | badPattern (pattern : String) (problem : GlobProblem)
  /-- No language goes with the name of a file. -/
  | noLanguage (path : RawText)
  /-- A file could not be read. -/
  | unreadable (path : RawText) (problem : FileProblem)
  /-- A directory could not be searched. -/
  | unsearchable (path : RawText) (problem : FileProblem)
  /-- The path to scan does not exist. -/
  | inaccessible (path : String) (problem : FileProblem)
  /-- A configuration file could not be read; its content may be at fault. -/
  | badConfig (path : String) (problem : Option FileProblem)
  | invalidFormat (format : String)
  | invalidPosition (arg : String)
  | positionNotPositive (arg : String)
  | invalidDigit
  | numberTooLarge
  deriving DecidableEq, Repr

/-- Output formats. -/
def outputFormats : List String := ["pretty", "json"]

namespace Failure

/-- The sentence shown to people; data files are rejected without one. -/
def message : Failure → Option String
  | .fault f => some f.message
  | .json _ => none
  | .yaml => none
  | .unknownLanguage id known =>
    some ("unknown language `" ++ id ++ "` (expected one of: " ++ ", ".intercalate known ++ ")")
  | .unknownConfigLanguage id known =>
    some ("unknown language " ++ quoteText id ++ " in config, expected one of: " ++
      ", ".intercalate known)
  | .badPattern pattern problem =>
    some ("invalid excluded_paths pattern " ++ quoteText pattern ++ ": error parsing glob '" ++
      pattern ++ "': " ++ problem.message)
  | .noLanguage path => some ("no language mapping for " ++ Utf8.lossy path)
  | .unreadable path problem =>
    some ("failed to read " ++ Utf8.lossy path ++ ": " ++ problem.message)
  | .unsearchable path problem =>
    some ("IO error for operation on " ++ Utf8.lossy path ++ ": " ++ problem.message)
  | .inaccessible path problem =>
    some ("cannot access path " ++ quotePath path ++ ": " ++ problem.message)
  | .badConfig path none => some ("failed to load config " ++ path)
  | .badConfig path (some problem) =>
    some ("failed to load config " ++ path ++ ": " ++ problem.message)
  | .invalidFormat format =>
    some ("invalid format " ++ quoteText format ++ ", must be one of: " ++
      ", ".intercalate outputFormats)
  | .invalidPosition arg => some ("invalid position " ++ quoteText arg ++ ", expected FILE:LINE:COL")
  | .positionNotPositive arg =>
    some ("invalid position " ++ quoteText arg ++ ", line and column start at 1")
  | .invalidDigit => some "invalid digit found in string"
  | .numberTooLarge => some "number too large to fit in target type"

end Failure

end Hollow
