import Hollow.Language.Jvm
import Hollow.Proofs.Placement
import Hollow.Proofs.Reports
import Mathlib.Data.List.Nodup

/-!
# Units built from syntax trees are judged whole

A declaration whose parts contradict its kind cannot be judged and hides everything nested in it.
Units built from syntax trees hold none, whatever the shape of the tree, the table and the policy:
well-formedness is part of the invariant of placing, and building member lists neither loses nor
invents a declaration.

* `walkAll_shell_perm` — the declarations of a unit, at all depths, are those placed.
* `wellFormed_of_canonicalize`, `count_of_canonicalize` — so all of them are well-formed, and there
  is one for each candidate with a rule.
* `classifyUnit_of_canonicalize` — the unit is judged without a failure, each declaration once.
-/

namespace Hollow

theorem PlacedInv.outline_perm {ps : List Placed} (h : PlacedInv ps) :
    (outline none ps).Perm (ps.map (·.declaration)) := by
  have hnodup : ([none] ++ ps.map fun p : Placed => some p.index).Nodup := by
    have hindex : (ps.map fun p => some p.index) = (List.range ps.length).map some := by
      rw [← h.index, List.map_map]
      rfl
    rw [hindex]
    refine List.nodup_cons.mpr ⟨by simp, ?_⟩
    exact List.nodup_range.map fun _ _ h => Option.some.inj h
  simpa using Hollow.outline_perm h.unfilled hnodup h.attached

theorem Declaration.WellFormed.isMalformed {d : Declaration} (h : d.WellFormed) :
    d.isMalformed = false := by
  unfold Declaration.isMalformed
  split_ifs with hk
  · rw [h.callable hk]
    rfl
  · have hsome := (h.classLike (Kind.eq_classLike_of_not_isCallable hk)).1
    rw [← Option.not_isSome, hsome]
    rfl

/-- A declaration without a malformed one among all that is nested in it is judged. -/
theorem exists_classify_of_wellFormed {noOps : Bool} {ds : List Declaration}
    (h : ∀ d ∈ Declaration.walkAll ds, d.WellFormed) {d : Declaration} (hd : d ∈ ds) :
    ∃ v, classify noOps d = .ok v :=
  exists_classify d fun c hc => (h c (Declaration.mem_walkAll_iff.mpr ⟨d, hd, hc⟩)).isMalformed

theorem exists_verdicts {noOps : Bool} {ds : List Declaration}
    (h : ∀ d ∈ Declaration.walkAll ds, d.WellFormed) :
    ∃ vs, List.Forall₂ (fun d v => classify noOps d = .ok v) ds vs := by
  obtain ⟨vs, hvs⟩ := exists_classifyAll fun d hd => @exists_classify_of_wellFormed noOps ds h d hd
  exact ⟨vs, classifyAll_eq_ok_iff.mp hvs⟩

theorem length_walkAll_of_classified {noOps : Bool} {ds : List Declaration} {vs : List Verdict}
    (h : List.Forall₂ (fun d v => classify noOps d = .ok v) ds vs) :
    (Verdict.walkAll vs).length = (Declaration.walkAll ds).length := by
  rw [Verdict.walkAll_eq_flatMap, Declaration.walkAll_eq_flatMap]
  exact (List.rel_flatMap h fun _ _ hdv => classify_walk hdv).length_eq.symm

namespace Grammar

variable {g : Grammar} {language path : String} {policy : UnsupportedPolicy} {source : Source}
  {root : Node} {unit : SourceUnit}

/-- **The declarations of a unit are those placed**, up to order and member lists. -/
theorem walkAll_shell_perm (h : g.canonicalize language policy path source root = .ok unit) :
    ((Declaration.walkAll unit.declarations).map Declaration.shell).Perm
      ((g.placedFrom source [] (g.candidates root)).map (·.declaration)) := by
  rw [declarations_of_canonicalize h]
  exact (placedFrom_inv .nil _).outline_perm

/-- No declaration of a unit is malformed, at any depth. -/
theorem wellFormed_of_canonicalize
    (h : g.canonicalize language policy path source root = .ok unit) :
    ∀ d ∈ Declaration.walkAll unit.declarations, d.WellFormed := by
  intro d hd
  have hmem := (walkAll_shell_perm h).subset (List.mem_map_of_mem hd)
  obtain ⟨p, hp, hpd⟩ := List.mem_map.mp hmem
  rw [← Declaration.wellFormed_shell, ← hpd]
  exact (placedFrom_inv .nil _).wellFormed p hp

/-- A unit has one declaration for each candidate with a rule. -/
theorem count_of_canonicalize (h : g.canonicalize language policy path source root = .ok unit) :
    unit.count = ((g.candidates root).filter g.isMapped).length := by
  have hlength := (walkAll_shell_perm h).length_eq
  rwa [List.length_map, List.length_map, length_placedFrom] at hlength

/-- **Units built from syntax trees are judged whole.**  Nothing in them is malformed.  They are
refused when declarations are required and there are none; otherwise every entry of the report is
classified, and the verdicts, the declarations, the candidates with a rule and the counts of the
summary all are equally many. -/
theorem classifyUnit_of_canonicalize (options : Options)
    (h : g.canonicalize language policy path source root = .ok unit) :
    (∀ d ∈ Declaration.walkAll unit.declarations, d.WellFormed) ∧
      ((options.requireDeclarations = true ∧ unit.declarations = []) ∧
          classifyUnit options unit = .error .emptyInput ∨
        ¬(options.requireDeclarations = true ∧ unit.declarations = []) ∧
          ∃ u, classifyUnit options unit = .ok u ∧
            (∀ e ∈ u.report.entries, ∃ v, e = .classified v) ∧
            u.report.allVerdicts.length = unit.count ∧
            unit.count = ((g.candidates root).filter g.isMapped).length ∧
            u.summary.empty + u.summary.nonEmpty + u.summary.notApplicable = unit.count) := by
  have hwf := wellFormed_of_canonicalize h
  refine ⟨hwf, ?_⟩
  by_cases hrefused : Refused options unit
  · exact Or.inl ⟨hrefused, classifyUnit_of_refused hrefused⟩
  obtain ⟨vs, hvs⟩ := @exists_verdicts options.noOpsAreEmpty _ hwf
  have hentries := map_ofDeclaration hvs
  have hverdicts : (unitReport options.noOpsAreEmpty unit).report.allVerdicts.length =
      unit.count := by
    simp only [unitReport, Report.allVerdicts, hentries, Report.verdicts_classified]
    exact length_walkAll_of_classified hvs
  refine Or.inr ⟨hrefused, _, classifyUnit_of_not_refused hrefused, ?_, hverdicts,
    count_of_canonicalize h, ?_⟩
  · intro e he
    simp only [unitReport, hentries, List.mem_map] at he
    obtain ⟨v, _, rfl⟩ := he
    exact ⟨v, rfl⟩
  · rw [← hverdicts]
    exact Report.total_summary _

/-- The bytes of a class that holds an annotation type and a method. -/
def annotatedSource : Source :=
  "class A\x7b@interface B\x7bclass C\x7b\x7d\x7dvoid f()\x7bg(()->0);\x7d\x7d".toUTF8.toList

/-- Its tree: there is another class inside of the annotation type, which is not supported, and a
lambda inside of the method. -/
def annotatedTree : Node :=
  node "program" 0 51 [node "class_declaration" 0 51 [node "class_body" 7 51
    [node "annotation_type_declaration" 8 31 [node "annotation_type_body" 20 31
        [node "class_declaration" 21 30 [node "class_body" 28 30 []]]],
      node "method_declaration" 31 50 [node "block" 39 50
        [node "expression_statement" 40 49 [node "method_invocation" 40 48
          [node "argument_list" 41 48 [node "lambda_expression" 42 47 []]]]]]]]]
where
  node (kind : String) (startByte endByte : Nat) (children : List Node) : Node :=
    { kind, field := none, startByte, endByte, isNamed := true, isMissing := false
      hasError := false, children }

theorem annotatedTree_judged_whole :
    ∃ unit u, java.canonicalize "java" .skip "A.java" annotatedSource annotatedTree = .ok unit ∧
      classifyUnit {} unit = .ok u ∧ (∀ e ∈ u.report.entries, ∃ v, e = .classified v) ∧
      u.report.allVerdicts.length = 4 := by
  obtain ⟨unit, hunit⟩ :=
    exists_canonicalize_skip java "java" "A.java" annotatedSource annotatedTree
  obtain ⟨_, ⟨⟨hrequired, _⟩, _⟩ | ⟨_, u, hu, hentries, hverdicts, hcount, _⟩⟩ :=
    classifyUnit_of_canonicalize {} hunit
  · cases hrequired
  have hcandidates : ((java.candidates annotatedTree).filter java.isMapped).length = 4 :=
    ((List.mergeSort_perm _ _).filter _).length_eq.trans (by decide)
  exact ⟨unit, u, hunit, hu, hentries, by rw [hverdicts, hcount, hcandidates]⟩

end Grammar

end Hollow
