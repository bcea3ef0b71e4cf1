import Hollow.Config
import Hollow.FileTree
import Hollow.Language

/-!
# Judging files

A context holds what is the same for all files of a run: the base directory that report paths are
relative to, the languages, and how to judge.  Files are judged independently of each other, one
after the other or at the same time.

* `analyzeSource` judges a source text, `analyzeFile` a file of the workspace.
* `analyzeFiles` judges many, leaves out those that fail, and sorts the reports by path;
  `analyzeFilesParallel` does the same with a task for each file.
-/

namespace Hollow

/-- What is the same for all files of a run. -/
structure Context where
  /-- The directory that report paths are relative to. -/
  base : RawText
  languages : LanguageSet
  policy : UnsupportedPolicy
  options : Options
  deriving Repr

namespace Context

/-- The context that a configuration asks for. -/
def ofConfig (base : RawText) (c : Config) : Except Failure Context :=
  match LanguageSet.builtin.restrict c.languages with
  | .error id => .error (.unknownLanguage id LanguageSet.builtin.ids)
  | .ok languages => .ok ⟨base, languages, c.unsupported, c.options⟩

/-- Whether there is a language for a path. -/
def supports (ctx : Context) (path : RawText) : Bool := (ctx.languages.forPath? path).isSome

/-- The unit that a source text describes.  It bears the path as it is shown, in which bytes that
are no text are replaced. -/
def canonicalizeSource (ctx : Context) (path : RawText) (content : FileContent) :
    Except Failure SourceUnit :=
  match ctx.languages.forPath? path with
  | none => .error (.noLanguage path)
  | some language =>
    (language.grammar.canonicalize language.id ctx.policy (Utf8.lossy path) content.bytes
      (content.tree.getD emptyTree)).mapError .fault

/-- Judge a source text. -/
def analyzeSource (ctx : Context) (path : RawText) (content : FileContent) :
    Except Failure UnitReport :=
  match ctx.canonicalizeSource path content with
  | .error failure => .error failure
  | .ok unit => (classifyUnit ctx.options unit).mapError .fault

/-- Judge a file.  The path in the report is relative to the base directory where possible. -/
def analyzeFile (ctx : Context) (w : Workspace) (path : RawText) : Except Failure UnitReport :=
  let full := PathName.join ctx.base path
  match w.read full with
  | .error problem => .error (.unreadable full problem)
  | .ok content => ctx.analyzeSource ((PathName.relativeTo ctx.base full).getD full) content

/-- The reports among the results, sorted by the paths that they show.  Reports with the same path
stay in the order of the results. -/
def sortedReports (results : List (Except Failure UnitReport)) : List UnitReport :=
  (results.filterMap Except.toOption).mergeSort fun a b => decide (a.path ≤ b.path)

/-- Judge files one after the other; those that fail are left out. -/
def analyzeFiles (ctx : Context) (w : Workspace) (paths : List RawText) : List UnitReport :=
  sortedReports (paths.map (ctx.analyzeFile w))

/-- Judge files at the same time; those that fail are left out. -/
def analyzeFilesParallel (ctx : Context) (w : Workspace) (paths : List RawText) :
    List UnitReport :=
  let tasks := paths.map fun path => Task.spawn fun _ => ctx.analyzeFile w path
  sortedReports (tasks.map Task.get)

end Context

end Hollow
