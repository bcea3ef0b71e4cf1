import Hollow.Proofs.Ancestry
import Hollow.Proofs.SourceOrder

/-!
# Skipping and aborting

The two policies share one run over the candidates.  Skipping goes through and leaves a complaint
about every construct that the grammar does not support; aborting ends with the first of these
complaints, or with the same unit if there are none.

* `Grammar.refuses`, `Grammar.refused` — the sites that a grammar declares unsupported, and those
  of a tree in the order of candidates.
* `Grammar.Separate` — no kind of node is asked for both as a declaration and as unsupported, as in
  all built-in languages (`separate_builtin`).
* `refused_perm`, `refused_ordered` — a tree's refused sites, each once and in order.
* `canonicalize_skip`, `canonicalize_abort` — the unit with its diagnostics, and what aborting makes
  of it.
* `skip_and_abort_agree` — both together, for the built-in languages.
-/

namespace Hollow

namespace Grammar

variable {g : Grammar} {source : Source} {root : Node}

/-! ## Refused sites -/

/-- The grammar takes a site for a construct that it does not support. -/
def refuses (g : Grammar) (s : Site) : Bool := g.unsupported.any (·.matches s)

/-- No kind of node is asked for both as a declaration and as unsupported. -/
def Separate (g : Grammar) : Prop :=
  ∀ p ∈ g.declarations, ∀ q ∈ g.unsupported, p.nodeKind ≠ q.nodeKind

instance : DecidablePred Separate := fun g =>
  inferInstanceAs (Decidable (∀ p ∈ g.declarations, ∀ q ∈ g.unsupported, p.nodeKind ≠ q.nodeKind))

theorem separate_builtin : ∀ l ∈ builtinLanguages, l.grammar.Separate := by decide

theorem Separate.declares_eq_false (hg : g.Separate) {s : Site} (hs : g.refuses s = true) :
    g.declares s = false := by
  rw [Bool.eq_false_iff]
  intro hd
  obtain ⟨q, hq, hqs⟩ := List.any_eq_true.mp hs
  obtain ⟨p, hp, hps⟩ := List.any_eq_true.mp hd
  exact hg p hp q hq ((p.kind_of_matches hps).symm.trans (q.kind_of_matches hqs))

/-- The sites of the candidates without a rule, in order. -/
def refused (g : Grammar) (root : Node) : List Site :=
  ((g.candidates root).filter fun c => !g.isMapped c).map (·.site)

theorem unmapped_sites (hcomplete : g.Complete) (hsep : g.Separate) (sites : List Site) :
    ((sites.filterMap g.candidate?).filter fun c => !g.isMapped c).map (·.site) =
      sites.filter g.refuses := by
  induction sites with
  | nil => rfl
  | cons s sites ih =>
    rw [List.filterMap_cons, List.filter_cons]
    by_cases hs : g.refuses s = true
    · -- It is no declaration, so it is a candidate without a rule.
      have hc : g.candidate? s = some ⟨s, false⟩ := by
        rw [candidate?, hsep.declares_eq_false hs]
        exact if_pos hs
      have hun : g.isMapped ⟨s, false⟩ = false := rfl
      simp [hc, hs, hun, ih]
    · cases hd : g.declares s with
      | true =>
        have hc : g.candidate? s = some ⟨s, true⟩ := by rw [candidate?, if_pos hd]
        simp [hc, hs, hcomplete.isMapped hd, ih]
      | false =>
        have hc : g.candidate? s = none := by
          rw [candidate?, hd]
          exact if_neg hs
        simp [hc, hs, ih]

/-- **The refused sites of a tree** are those that the grammar declares unsupported. -/
theorem refused_perm (hcomplete : g.Complete) (hsep : g.Separate) (root : Node) :
    (g.refused root).Perm (root.sites.filter g.refuses) := by
  rw [refused, filter_candidates, ← unmapped_sites hcomplete hsep]
  exact (List.mergeSort_perm _ _).map _

theorem refused_nodup (g : Grammar) (root : Node) : ((g.refused root).map (·.number)).Nodup := by
  rw [refused, List.map_map]
  exact (candidates_nodup g root).sublist (List.filter_sublist.map _)

/-- They are ordered by where they begin, and of those that begin together the longer comes first. -/
theorem refused_ordered (g : Grammar) (root : Node) :
    (g.refused root).Pairwise fun s t => s.node.startByte < t.node.startByte ∨
      s.node.startByte = t.node.startByte ∧ t.node.endByte ≤ s.node.endByte := by
  rw [refused, List.pairwise_map]
  refine ((candidates_before g root).filter _).imp fun {a b} hab => ?_
  have hprecedes := hab.1
  simpa [Candidate.precedes] using hprecedes

/-! ## The two policies -/

/-- The complaint about a refused site. -/
def complaint (source : Source) (s : Site) : Fault :=
  .unsupported s.node.kind (s.node.span source)

theorem filterMap_fault? (source : Source) (cs : List Candidate) :
    cs.filterMap (g.fault? source) =
      ((cs.filter fun c => !g.isMapped c).map (·.site)).map (complaint source) := by
  induction cs with
  | nil => rfl
  | cons c cs ih =>
    rw [List.filterMap_cons, List.filter_cons]
    cases hc : g.isMapped c with
    | true => simp [fault?, hc, ih]
    | false => simp [fault?, hc, ih, complaint]

variable {language path : String} {unit : SourceUnit}

theorem canonicalize_skip (g : Grammar) (language path : String) (source : Source) (root : Node) :
    g.canonicalize language .skip path source root =
      .ok ⟨path, language, forest none (g.placedFrom source [] (g.candidates root)),
        (g.refused root).map (complaint source), root.hasError⟩ := by
  rw [canonicalize, placeAll_skip, filterMap_fault?]
  rfl

/-- **Aborting** ends with the first complaint of skipping, or else with the same unit. -/
theorem canonicalize_abort (h : g.canonicalize language .skip path source root = .ok unit) :
    g.canonicalize language .abort path source root =
      match unit.diagnostics with
      | [] => .ok unit
      | fault :: _ => .error fault := by
  rw [canonicalize_skip, Except.ok.injEq] at h
  subst h
  rw [canonicalize, placeAll_abort, filterMap_fault?]
  simp only [refused]
  cases ((g.candidates root).filter fun c => !g.isMapped c).map (·.site) with
  | nil => rfl
  | cons s rest => rfl

/-! ## The built-in languages -/

/-- The kinds of node that a language does not support. -/
def unsupportedKinds : String → List String
  | "java" => ["annotation_type_declaration"]
  | "rust" => ["macro_definition"]
  | "typescript" | "tsx" => ["module", "internal_module"]
  | _ => []

theorem unsupported_builtin : ∀ l ∈ builtinLanguages,
    l.grammar.unsupported = (unsupportedKinds l.id).map Pattern.kind := by decide

theorem refuses_iff {l : Language} (hl : l ∈ builtinLanguages) (s : Site) :
    l.grammar.refuses s = true ↔ s.node.isNamed = true ∧ s.node.kind ∈ unsupportedKinds l.id := by
  rw [refuses, unsupported_builtin l hl]
  simp [Pattern.matches, and_comm]

/-- **Skipping and aborting agree.**  In every built-in language and for every tree, skipping leads
to a unit.  Its diagnostics are the complaints about the sites declared unsupported, which are the
named nodes of a few kinds: each of them once, ordered by where it begins and then by length, the
longest first; what is taken for a declaration is never among them.  Aborting fails with the first
diagnostic, or gives the same unit if there is none. -/
theorem skip_and_abort_agree {l : Language} (hl : l ∈ builtinLanguages) (path : String)
    (source : Source) (root : Node) :
    ∃ unit, l.grammar.canonicalize l.id .skip path source root = .ok unit ∧
      (∃ refused : List Site, refused.Perm (root.sites.filter l.grammar.refuses) ∧
        (refused.map (·.number)).Nodup ∧
        (refused.Pairwise fun s t => s.node.startByte < t.node.startByte ∨
          s.node.startByte = t.node.startByte ∧ t.node.endByte ≤ s.node.endByte) ∧
        (∀ s ∈ refused, l.grammar.declares s = false) ∧
        unit.diagnostics = refused.map fun s => .unsupported s.node.kind (s.node.span source)) ∧
      (∀ s, l.grammar.refuses s = true ↔
        s.node.isNamed = true ∧ s.node.kind ∈ unsupportedKinds l.id) ∧
      l.grammar.canonicalize l.id .abort path source root =
        match unit.diagnostics with
        | [] => .ok unit
        | fault :: _ => .error fault := by
  have hskip := canonicalize_skip l.grammar l.id path source root
  have hsep := separate_builtin l hl
  have hperm := refused_perm (complete_builtin l hl) hsep root
  refine ⟨_, hskip, ⟨l.grammar.refused root, hperm, refused_nodup l.grammar root,
    refused_ordered l.grammar root, ?_, rfl⟩, refuses_iff hl, canonicalize_abort hskip⟩
  intro s hs
  exact hsep.declares_eq_false (List.mem_filter.mp (hperm.subset hs)).2

theorem annotatedTree_skip_and_abort :
    ∃ unit fault,
      java.canonicalize "java" .skip "A.java" annotatedSource annotatedTree = .ok unit ∧
      unit.diagnostics = [fault] ∧ fault.code = "unsupported_construct" ∧
      java.canonicalize "java" .abort "A.java" annotatedSource annotatedTree = .error fault := by
  have hmem : ⟨"java", ["java"], java⟩ ∈ builtinLanguages := by simp [builtinLanguages]
  obtain ⟨unit, hunit, ⟨refused, hperm, _, _, _, hdiagnostics⟩, _, habort⟩ :=
    skip_and_abort_agree hmem "A.java" annotatedSource annotatedTree
  obtain ⟨s, hs⟩ : ∃ s, annotatedTree.sites.filter java.refuses = [s] := ⟨_, rfl⟩
  rw [hs, List.perm_singleton] at hperm
  rw [hperm, List.map_singleton] at hdiagnostics
  rw [hdiagnostics] at habort
  exact ⟨unit, _, hunit, hdiagnostics, rfl, habort⟩

end Grammar

end Hollow
