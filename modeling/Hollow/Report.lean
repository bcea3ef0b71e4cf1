import Hollow.Verdict

/-!
# Reports

Every top-level declaration of a unit gets an entry of its own, in input order.  One that cannot
be judged becomes a failed entry and does not hide its siblings.  A `Summary` counts verdicts at
every depth and failures at the top level; summaries add up component by component.
-/

namespace Hollow

/-- How units are judged. -/
structure Options where
  /-- Refuse a unit without declarations. -/
  requireDeclarations : Bool := false
  /-- Set filler aside along with comments and whitespace. -/
  noOpsAreEmpty : Bool := true
  deriving DecidableEq, Repr

/-- One top-level entry of a report. -/
inductive Entry where
  | classified (verdict : Verdict)
  | failed (declaration : DeclarationRef) (fault : Fault)
  deriving Repr

namespace Entry

/-- The verdict of a classified entry. -/
def verdict? : Entry → Option Verdict
  | .classified v => some v
  | .failed .. => none

/-- What a failed entry complains about. -/
def failure? : Entry → Option (DeclarationRef × Fault)
  | .classified _ => none
  | .failed declaration fault => some (declaration, fault)

/-- The declaration an entry is about. -/
def declaration : Entry → DeclarationRef
  | .classified v => v.declaration
  | .failed declaration _ => declaration

/-- The entry for one top-level declaration. -/
def ofDeclaration (noOpsAreEmpty : Bool) (d : Declaration) : Entry :=
  match classify noOpsAreEmpty d with
  | .ok verdict => .classified verdict
  | .error fault => .failed d.ref fault

end Entry

/-- Numbers of verdicts and failures. -/
structure Summary where
  empty : Nat := 0
  nonEmpty : Nat := 0
  /-- Signatures, which are neither empty nor non-empty. -/
  notApplicable : Nat := 0
  failed : Nat := 0
  deriving DecidableEq, Repr

namespace Summary

/-- Declarations that were judged empty or non-empty. -/
def classified (s : Summary) : Nat := s.empty + s.nonEmpty

/-- Component-wise sum. -/
def add (s t : Summary) : Summary :=
  ⟨s.empty + t.empty, s.nonEmpty + t.nonEmpty, s.notApplicable + t.notApplicable,
    s.failed + t.failed⟩

/-- Count a single verdict, without what is nested in it. -/
def ofVerdict (v : Verdict) : Summary :=
  if !v.isApplicable then { notApplicable := 1 }
  else if v.isEmpty then { empty := 1 }
  else { nonEmpty := 1 }

/-- Sum of a list of summaries. -/
def sum (summaries : List Summary) : Summary := summaries.foldl add {}

end Summary

/-- The entries of one unit, in order. -/
structure Report where
  entries : List Entry
  deriving Repr

namespace Report

/-- Top-level verdicts in order. -/
def verdicts (r : Report) : List Verdict := r.entries.filterMap Entry.verdict?

/-- Every verdict at any depth, depth-first in report order. -/
def allVerdicts (r : Report) : List Verdict := Verdict.walkAll r.verdicts

/-- Failures in order. -/
def failures (r : Report) : List (DeclarationRef × Fault) := r.entries.filterMap Entry.failure?

/-- Counts over all verdicts and failures. -/
def summary (r : Report) : Summary :=
  (Summary.sum (r.allVerdicts.map Summary.ofVerdict)).add { failed := r.failures.length }

end Report

/-- Judge top-level declarations, each on its own. -/
def aggregate (options : Options) (declarations : List Declaration) : Except Fault Report :=
  if declarations.isEmpty && options.requireDeclarations then
    .error .emptyInput
  else
    .ok ⟨declarations.map (Entry.ofDeclaration options.noOpsAreEmpty)⟩

/-- A unit's report together with what is known of the unit. -/
structure UnitReport where
  path : String
  language : String
  report : Report
  diagnostics : List Fault
  hasParseErrors : Bool
  deriving Repr

/-- Counts of a unit's report. -/
def UnitReport.summary (u : UnitReport) : Summary := u.report.summary

/-- Sum of the summaries of several units. -/
def totalSummary (units : List UnitReport) : Summary := Summary.sum (units.map UnitReport.summary)

/-- Judge every top-level declaration of a unit. -/
def classifyUnit (options : Options) (unit : SourceUnit) : Except Fault UnitReport :=
  (aggregate options unit.declarations).map fun report =>
    ⟨unit.path, unit.language, report, unit.diagnostics, unit.hasParseErrors⟩

end Hollow
