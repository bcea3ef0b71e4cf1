import Hollow.Proofs.Classification
import Hollow.Report
import Mathlib.Algebra.GroupWithZero.Nat

/-!
# Reports over whole units

* `classifyUnit_of_refused`, `classifyUnit_of_not_refused` — when a unit is judged, and what the
  report then holds; the only failure is a missing declaration.
* `exists_classify_of_mem_allVerdicts` — every verdict of a report, at any depth, is the verdict on
  some declaration of the unit.
* `map_ofDeclaration` — where nothing fails, the entries are the verdicts.
* `Summary.sum_eq`, `Report.summary_eq` — summaries add up component by component, and what the
  summary of a report counts.
* `Report.total_summary` — the three verdict counts of a summary add up to the number of verdicts.
-/

namespace Hollow

variable {noOps : Bool}

/-! ## Judging a unit -/

/-- The report on a unit, if it is judged at all. -/
def unitReport (noOps : Bool) (unit : SourceUnit) : UnitReport :=
  ⟨unit.path, unit.language, ⟨unit.declarations.map (Entry.ofDeclaration noOps)⟩,
    unit.diagnostics, unit.hasParseErrors⟩

/-- A unit is refused when declarations are required and it has none. -/
def Refused (options : Options) (unit : SourceUnit) : Prop :=
  options.requireDeclarations = true ∧ unit.declarations = []

theorem classifyUnit_of_refused {options : Options} {unit : SourceUnit}
    (h : Refused options unit) : classifyUnit options unit = .error .emptyInput := by
  simp [classifyUnit, aggregate, h.1, h.2, Except.map]

theorem classifyUnit_of_not_refused {options : Options} {unit : SourceUnit}
    (h : ¬Refused options unit) :
    classifyUnit options unit = .ok (unitReport options.noOpsAreEmpty unit) := by
  have hguard : ¬(unit.declarations.isEmpty && options.requireDeclarations) = true := by
    rw [Bool.and_eq_true, List.isEmpty_iff, and_comm]
    exact h
  rw [classifyUnit, aggregate, if_neg hguard]
  rfl

theorem classifyUnit_eq_ok_iff {options : Options} {unit : SourceUnit} {u : UnitReport} :
    classifyUnit options unit = .ok u ↔
      ¬Refused options unit ∧ u = unitReport options.noOpsAreEmpty unit := by
  by_cases h : Refused options unit
  · simp [classifyUnit_of_refused h, h]
  · simp [classifyUnit_of_not_refused h, h, eq_comm]

/-! ## Entries and verdicts -/

theorem Entry.ofDeclaration_ok {d : Declaration} {v : Verdict} (h : classify noOps d = .ok v) :
    Entry.ofDeclaration noOps d = .classified v := by
  rw [Entry.ofDeclaration, h]

theorem Entry.ofDeclaration_error {d : Declaration} {fault : Fault}
    (h : classify noOps d = .error fault) :
    Entry.ofDeclaration noOps d = .failed d.ref fault := by
  rw [Entry.ofDeclaration, h]

theorem Entry.verdict?_ofDeclaration {d : Declaration} {v : Verdict} :
    (Entry.ofDeclaration noOps d).verdict? = some v ↔ classify noOps d = .ok v := by
  unfold Entry.ofDeclaration
  cases classify noOps d <;> simp [Entry.verdict?]

/-- The top-level verdicts of a report are those on the top-level declarations of the unit. -/
theorem mem_verdicts_iff {unit : SourceUnit} {v : Verdict} :
    v ∈ (unitReport noOps unit).report.verdicts ↔
      ∃ d ∈ unit.declarations, classify noOps d = .ok v := by
  simp only [unitReport, Report.verdicts, List.filterMap_map, List.mem_filterMap,
    Function.comp_apply, Entry.verdict?_ofDeclaration]

theorem Report.mem_allVerdicts_iff {r : Report} {v : Verdict} :
    v ∈ r.allVerdicts ↔ ∃ top ∈ r.verdicts, v ∈ top.walk := by
  rw [allVerdicts, Verdict.walkAll_eq_flatMap, List.mem_flatMap]

/-- Every verdict of a report is the verdict on a declaration of the unit. -/
theorem exists_classify_of_mem_allVerdicts {unit : SourceUnit} {v : Verdict}
    (hv : v ∈ (unitReport noOps unit).report.allVerdicts) :
    ∃ d ∈ Declaration.walkAll unit.declarations, classify noOps d = .ok v := by
  obtain ⟨top, htop, hv⟩ := Report.mem_allVerdicts_iff.mp hv
  obtain ⟨d, hd, htop⟩ := mem_verdicts_iff.mp htop
  obtain ⟨c, hc, hcv⟩ := exists_rel_of_mem_right (classify_walk htop) hv
  exact ⟨c, Declaration.mem_walkAll_iff.mpr ⟨d, hd, hc⟩, hcv⟩

/-- Where all top-level declarations get a verdict, these are the entries. -/
theorem map_ofDeclaration {ds : List Declaration} {vs : List Verdict}
    (h : List.Forall₂ (fun d v => classify noOps d = .ok v) ds vs) :
    ds.map (Entry.ofDeclaration noOps) = vs.map Entry.classified := by
  induction h with
  | nil => rfl
  | cons hv _ ih => rw [List.map_cons, List.map_cons, ih, Entry.ofDeclaration_ok hv]

theorem Report.verdicts_classified (vs : List Verdict) :
    (Report.mk (vs.map Entry.classified)).verdicts = vs := by
  rw [verdicts, List.filterMap_map]
  exact List.filterMap_some

/-! ## Counting -/

namespace Summary

/-- Number of verdicts counted. -/
def total (s : Summary) : Nat := s.empty + s.nonEmpty + s.notApplicable

theorem foldl_add (ss : List Summary) (s : Summary) :
    ss.foldl add s =
      s.add ⟨(ss.map (·.empty)).sum, (ss.map (·.nonEmpty)).sum, (ss.map (·.notApplicable)).sum,
        (ss.map (·.failed)).sum⟩ := by
  induction ss generalizing s with
  | nil => rfl
  | cons t ss ih =>
    rw [List.foldl_cons, ih]
    simp only [add, List.map_cons, List.sum_cons, Nat.add_assoc]

/-- Summaries add up component by component. -/
theorem sum_eq (ss : List Summary) :
    sum ss =
      ⟨(ss.map (·.empty)).sum, (ss.map (·.nonEmpty)).sum, (ss.map (·.notApplicable)).sum,
        (ss.map (·.failed)).sum⟩ := by
  rw [sum, foldl_add]
  simp [add]

theorem sum_map_ofVerdict (vs : List Verdict) :
    sum (vs.map ofVerdict) =
      ⟨vs.countP fun v => v.isApplicable && v.isEmpty,
        vs.countP fun v => v.isApplicable && !v.isEmpty, vs.countP fun v => !v.isApplicable, 0⟩ := by
  rw [sum_eq]
  induction vs with
  | nil => rfl
  | cons v vs ih =>
    simp only [mk.injEq] at ih
    simp only [List.map_cons, List.sum_cons, List.countP_cons, ih, mk.injEq]
    unfold ofVerdict
    cases v.isApplicable <;> cases v.isEmpty <;> simp <;> omega

end Summary

/-- A summary counts all verdicts, at every depth, and the failures. -/
theorem Report.summary_eq (r : Report) :
    r.summary =
      ⟨r.allVerdicts.countP fun v => v.isApplicable && v.isEmpty,
        r.allVerdicts.countP fun v => v.isApplicable && !v.isEmpty,
        r.allVerdicts.countP fun v => !v.isApplicable, r.failures.length⟩ := by
  rw [summary, Summary.sum_map_ofVerdict]
  simp [Summary.add]

/-- Every verdict is counted once, as empty, as non-empty or as having nothing to judge. -/
theorem Report.total_summary (r : Report) : r.summary.total = r.allVerdicts.length := by
  simp only [summary_eq, Summary.total]
  induction r.allVerdicts with
  | nil => rfl
  | cons v vs ih =>
    simp only [List.countP_cons, List.length_cons]
    cases v.isApplicable <;> cases v.isEmpty <;> simp <;> omega

end Hollow
