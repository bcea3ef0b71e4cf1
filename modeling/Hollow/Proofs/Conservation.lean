import Hollow.Proofs.Malformed
import Hollow.Proofs.Reports

/-!
# Nothing is lost, counted twice or influenced by a neighbour

A report has one entry for each top-level declaration.  A fault anywhere below a declaration turns
its entry into a failure and takes the whole subtree out of the counts; everything else is counted
exactly once.

* `Declaration.isFaulty` — something in the walk of the declaration is malformed.
* `ofDeclaration_cases` — what an entry is, in both cases.
* `length_failures`, `length_allVerdicts` — failures and verdicts of a report, by the declarations.
* `classifyUnit_conserves` — the contract, together with the laws of total summaries.
-/

namespace Hollow

variable {noOps : Bool}

/-! ## Faulty declarations -/

namespace Declaration

/-- Something in the walk is malformed. -/
def isFaulty (d : Declaration) : Bool := d.walk.any isMalformed

theorem isFaulty_eq_isSome_culprit? (d : Declaration) : d.isFaulty = d.culprit?.isSome := by
  unfold isFaulty culprit?
  rw [Bool.eq_iff_iff, List.any_eq_true, List.find?_isSome]

end Declaration

/-- A faulty declaration becomes a failed entry; any other one has a verdict as large as its
walk. -/
theorem ofDeclaration_cases (d : Declaration) :
    (d.isFaulty = true ∧ ∃ fault, Entry.ofDeclaration noOps d = .failed d.ref fault) ∨
    (d.isFaulty = false ∧ ∃ v, Entry.ofDeclaration noOps d = .classified v ∧
      v.walk.length = d.walk.length) := by
  have hrefusal : (refusal? (classify noOps d)).isSome = d.isFaulty := by
    rw [refusal?_classify, Option.isSome_map, d.isFaulty_eq_isSome_culprit?]
  cases hd : classify noOps d with
  | error fault =>
    rw [hd] at hrefusal
    exact Or.inl ⟨hrefusal.symm, fault, Entry.ofDeclaration_error hd⟩
  | ok v =>
    rw [hd] at hrefusal
    exact Or.inr ⟨hrefusal.symm, v, Entry.ofDeclaration_ok hd, (classify_walk hd).length_eq.symm⟩

/-! ## Failures and verdicts of a report -/

theorem length_failures (ds : List Declaration) :
    (Report.mk (ds.map (Entry.ofDeclaration noOps))).failures.length =
      ds.countP Declaration.isFaulty := by
  unfold Report.failures
  induction ds with
  | nil => rfl
  | cons d ds ih =>
    rw [List.map_cons, List.filterMap_cons, List.countP_cons]
    obtain ⟨hfaulty, fault, he⟩ | ⟨hfaulty, v, he, _⟩ := @ofDeclaration_cases noOps d
    · simpa [he, hfaulty, Entry.failure?] using ih
    · simpa [he, hfaulty, Entry.failure?] using ih

theorem length_allVerdicts (ds : List Declaration) :
    (Report.mk (ds.map (Entry.ofDeclaration noOps))).allVerdicts.length =
      ((ds.filter fun d => !d.isFaulty).map (·.walk.length)).sum := by
  unfold Report.allVerdicts Report.verdicts
  rw [Verdict.walkAll_eq_flatMap]
  induction ds with
  | nil => rfl
  | cons d ds ih =>
    rw [List.map_cons, List.filterMap_cons, List.filter_cons]
    obtain ⟨hfaulty, fault, he⟩ | ⟨hfaulty, v, he, hsize⟩ := @ofDeclaration_cases noOps d
    · simpa [he, hfaulty, Entry.verdict?] using ih
    · simpa [he, hfaulty, Entry.verdict?, hsize] using ih

/-- The walks of the faulty declarations and of the others make up the unit. -/
theorem sum_walk_lengths (unit : SourceUnit) :
    ((unit.declarations.filter Declaration.isFaulty).map (·.walk.length)).sum +
        ((unit.declarations.filter fun d => !d.isFaulty).map (·.walk.length)).sum =
      unit.count := by
  have hperm := (List.filter_append_perm Declaration.isFaulty unit.declarations).map
    (·.walk.length)
  have hsum := hperm.sum_nat
  rw [List.map_append, List.sum_append] at hsum
  rw [hsum, SourceUnit.count, Declaration.walkAll_eq_flatMap, List.length_flatMap]

/-- The failures of a unit, counted. -/
theorem summary_failed (noOps : Bool) (unit : SourceUnit) :
    (unitReport noOps unit).summary.failed = unit.declarations.countP Declaration.isFaulty := by
  rw [UnitReport.summary, Report.summary_eq]
  exact length_failures unit.declarations

/-! ## Total summaries -/

theorem totalSummary_eq (units : List UnitReport) :
    totalSummary units =
      ⟨(units.map (·.summary.empty)).sum, (units.map (·.summary.nonEmpty)).sum,
        (units.map (·.summary.notApplicable)).sum, (units.map (·.summary.failed)).sum⟩ := by
  rw [totalSummary, Summary.sum_eq]
  simp only [List.map_map, Function.comp_def]

theorem totalSummary_perm {units shuffled : List UnitReport} (h : units.Perm shuffled) :
    totalSummary shuffled = totalSummary units := by
  simp only [totalSummary_eq, Summary.mk.injEq]
  exact ⟨(h.symm.map _).sum_nat, (h.symm.map _).sum_nat, (h.symm.map _).sum_nat,
    (h.symm.map _).sum_nat⟩

theorem totalSummary_append (units more : List UnitReport) :
    totalSummary (units ++ more) = (totalSummary units).add (totalSummary more) := by
  simp only [totalSummary_eq, Summary.add, List.map_append, List.sum_append]

/-! ## The contract -/

/-- **Partial failure and conservation of counts.**  The entries of a report are those that the
top-level declarations get on their own, in order.  The failures are the declarations with a fault
at some depth; the verdicts are as many as there are declarations in the walks of the others, so
that nothing of the unit is missing or counted twice.  Total summaries are component-wise sums,
whatever the order of the units and however they are put together. -/
theorem classifyUnit_conserves {options : Options} {unit : SourceUnit} {u : UnitReport}
    (h : classifyUnit options unit = .ok u) :
    u.report.entries.length = unit.declarations.length ∧
      (∀ (i : Nat) (d : Declaration), unit.declarations[i]? = some d →
        ∃ e, u.report.entries[i]? = some e ∧ aggregate options [d] = .ok ⟨[e]⟩) ∧
      u.summary.failed = unit.declarations.countP Declaration.isFaulty ∧
      u.summary.empty + u.summary.nonEmpty + u.summary.notApplicable =
        ((unit.declarations.filter fun d => !d.isFaulty).map (·.walk.length)).sum ∧
      ((unit.declarations.filter Declaration.isFaulty).map (·.walk.length)).sum +
        (u.summary.empty + u.summary.nonEmpty + u.summary.notApplicable) = unit.count ∧
      ∀ units : List UnitReport,
        totalSummary units =
          ⟨(units.map (·.summary.empty)).sum, (units.map (·.summary.nonEmpty)).sum,
            (units.map (·.summary.notApplicable)).sum, (units.map (·.summary.failed)).sum⟩ ∧
        (∀ shuffled, units.Perm shuffled → totalSummary shuffled = totalSummary units) ∧
        ∀ more, totalSummary (units ++ more) = (totalSummary units).add (totalSummary more) := by
  obtain ⟨_, rfl⟩ := classifyUnit_eq_ok_iff.mp h
  have htotal : (unitReport options.noOpsAreEmpty unit).summary.total =
      ((unit.declarations.filter fun d => !d.isFaulty).map (·.walk.length)).sum := by
    rw [UnitReport.summary, Report.total_summary]
    exact length_allVerdicts unit.declarations
  refine ⟨?_, ?_, summary_failed _ unit, htotal, ?_, ?_⟩
  · simp [unitReport]
  · intro i d hd
    refine ⟨Entry.ofDeclaration options.noOpsAreEmpty d, by simp [unitReport, hd], ?_⟩
    simp [aggregate]
  · rw [← sum_walk_lengths unit, ← htotal]
    rfl
  · intro units
    exact ⟨totalSummary_eq units, fun _ hperm => totalSummary_perm hperm, totalSummary_append units⟩

/-- A unit with a class that has a fault two levels down, between two declarations without. -/
def faultyUnit : SourceUnit :=
  ⟨"shapes.cpp", "cpp", [mixedClass, faultyClass, ⟨6, .function, some "main", default, none, none⟩],
    [], false⟩

theorem faultyUnit_conserves :
    ∃ u, classifyUnit {} faultyUnit = .ok u ∧ u.summary = ⟨3, 0, 2, 1⟩ ∧
      u.summary.failed = faultyUnit.declarations.countP Declaration.isFaulty ∧
      ((faultyUnit.declarations.filter Declaration.isFaulty).map (·.walk.length)).sum +
        (u.summary.empty + u.summary.nonEmpty + u.summary.notApplicable) = faultyUnit.count := by
  obtain ⟨_, _, hfailed, _, hcount, _⟩ := @classifyUnit_conserves {} faultyUnit _ rfl
  exact ⟨_, rfl, rfl, hfailed, hcount⟩

end Hollow
