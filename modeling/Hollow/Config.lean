import Hollow.Canonical
import Hollow.Failure
import Hollow.Json.Reader
import Hollow.Report
import Hollow.Text.Blank
import Hollow.Yaml

/-!
# Configurations

What a configuration file may say.  Every field is optional, and an absent file says nothing.

* `Config.parse` reads the YAML text of a file.
* `Config.exclusions` reads the patterns of paths to leave out.
* `Config.validate` checks language names and patterns before anything is done.
-/

namespace Hollow

/-- What a configuration file says. -/
structure Config where
  /-- Only these languages; all of them when there is none. -/
  languages : List String := []
  /-- Patterns of paths to leave out. -/
  excludedPaths : List String := []
  unsupported : UnsupportedPolicy := .skip
  requireDeclarations : Bool := false
  /-- Whether filler counts as empty, which it does by default. -/
  treatNoOpsAsEmpty : Option Bool := none
  /-- Whether test files are scanned, which they are by default. -/
  includeTestFiles : Option Bool := none
  deriving DecidableEq, Repr

namespace Config

/-- How units are to be judged. -/
def options (c : Config) : Options :=
  { requireDeclarations := c.requireDeclarations
    noOpsAreEmpty := c.treatNoOpsAsEmpty.getD true }

/-- Whether test files are scanned. -/
def includesTestFiles (c : Config) : Bool := c.includeTestFiles.getD true

/-! ## Reading YAML -/

/-- A list of texts; an empty value is an empty list. -/
def textList : Yaml.Node → Option (List String)
  | .sequence items => items.mapM fun
    | .scalar text _ => some text
    | _ => none
  | .scalar "" true => some []
  | _ => none

/-- The policy for unsupported constructs. -/
def policy : Yaml.Node → Option UnsupportedPolicy
  | .scalar "skip" _ => some .skip
  | .scalar "abort" _ => some .abort
  | _ => none

/-- A truth value, which has to be plain. -/
def truth : Yaml.Node → Option Bool
  | .scalar text true =>
    if ["true", "True", "TRUE"].contains text then some true
    else if ["false", "False", "FALSE"].contains text then some false
    else none
  | _ => none

/-- A truth value that may be absent. -/
def optionalTruth : Yaml.Node → Option (Option Bool)
  | .scalar text true =>
    if ["", "~", "null", "Null", "NULL"].contains text then some none
    else (truth (.scalar text true)).map some
  | _ => none

/-- The names of the fields. -/
def fieldNames : List String :=
  ["languages", "excluded_paths", "unsupported", "require_declarations", "treat_no_ops_as_empty",
    "include_test_files"]

/-- Read one field; an unknown one says nothing. -/
def readField (c : Config) (name : String) (value : Yaml.Node) : Option Config :=
  match name with
  | "languages" => (textList value).map fun v => { c with languages := v }
  | "excluded_paths" => (textList value).map fun v => { c with excludedPaths := v }
  | "unsupported" => (policy value).map fun v => { c with unsupported := v }
  | "require_declarations" => (truth value).map fun v => { c with requireDeclarations := v }
  | "treat_no_ops_as_empty" => (optionalTruth value).map fun v => { c with treatNoOpsAsEmpty := v }
  | "include_test_files" => (optionalTruth value).map fun v => { c with includeTestFiles := v }
  | _ => some c

/-- Read pairs in order.  A key has to be a scalar, and a known one may occur once. -/
def readPairs (seen : List String) (c : Config) : List (Yaml.Node × Yaml.Node) → Option Config
  | [] => some c
  | (.scalar name _, value) :: rest =>
    if seen.contains name then none
    else match c.readField name value with
      | none => none
      | some c' => readPairs (if fieldNames.contains name then name :: seen else seen) c' rest
  | _ :: _ => none

/-- Read a document: a mapping, or nothing at all. -/
def ofYaml : Yaml.Node → Option Config
  | .mapping pairs => readPairs [] {} pairs
  | .scalar "" true => some {}
  | _ => none

/-- Read the text of a configuration file.  A blank text says nothing. -/
def parse (text : String) : Option Config :=
  if isBlankText text then some {} else (Yaml.parse text).bind ofYaml

/-! ## JSON -/

/-- A configuration as a record; what is not said is written as `null`. -/
def toJson (c : Config) : Json.Value :=
  let truth : Option Bool → Json.Value := fun
    | some b => .bool b
    | none => .null
  .object [("languages", .array (c.languages.map .string)),
    ("excluded_paths", .array (c.excludedPaths.map .string)),
    ("unsupported", .string (match c.unsupported with | .skip => "skip" | .abort => "abort")),
    ("require_declarations", .bool c.requireDeclarations),
    ("treat_no_ops_as_empty", truth c.treatNoOpsAsEmpty),
    ("include_test_files", truth c.includeTestFiles)]

/-- Read a configuration; every field may be missing. -/
def read : Json.Reader Config :=
  Json.record fieldNames fun source room fields => do
    let texts := fun name => Json.orElse fields name [] (Json.listOf Json.text source room)
    let truth := fun name => Json.orElse fields name none (Json.optional Json.flag source room)
    let policies := [("skip", UnsupportedPolicy.skip), ("abort", .abort)]
    pure {
      languages := ← texts "languages"
      excludedPaths := ← texts "excluded_paths"
      unsupported := ← Json.orElse fields "unsupported" .skip
        (Json.alternative policies source room)
      requireDeclarations := ← Json.orElse fields "require_declarations" false
        (Json.flag source room)
      treatNoOpsAsEmpty := ← truth "treat_no_ops_as_empty"
      includeTestFiles := ← truth "include_test_files" }

/-! ## Patterns and validation -/

/-- Patterns of paths to leave out. -/
abbrev Exclusions := List (List GlobToken)

/-- Whether one of the patterns matches a path. -/
def Exclusions.isMatch (e : Exclusions) (path : RawText) : Bool :=
  e.any fun tokens => Glob.matches tokens path

/-- Read patterns in order; the first that cannot be read is the failure. -/
def readPatterns : List String → Except Failure Exclusions
  | [] => .ok []
  | pattern :: rest =>
    match Glob.parse pattern with
    | .error problem => .error (.badPattern pattern problem)
    | .ok tokens => (readPatterns rest).map (tokens :: ·)

/-- The patterns of paths to leave out. -/
def exclusions (c : Config) : Except Failure Exclusions := readPatterns c.excludedPaths

/-- Check language names against the known ones, then the patterns. -/
def validate (c : Config) (known : List String) : Except Failure Unit :=
  match c.languages.find? fun id => !known.contains id with
  | some id => .error (.unknownConfigLanguage id known)
  | none =>
    match c.excludedPaths.findSome? fun pattern =>
        match Glob.parse pattern with
        | .error problem => some (Failure.badPattern pattern problem)
        | .ok _ => none with
    | some failure => .error failure
    | none => .ok ()

end Config

end Hollow
