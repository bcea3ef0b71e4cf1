import Hollow.Proofs.Enclosure
import Hollow.Proofs.Positions

/-!
# Where position lookup finds what is empty

The lookup goes down into the members of a class only where the span of its member block contains
the position.  Members, however, are all declarations below the node of the class, also those in
its header.  So an empty declaration is found at the positions of its body if it lies in the member
blocks of all classes above it, and it may be missed if it does not.

* `Grammar.ground` — the node whose span a verdict answers for; `effectiveSpan_of_hasVerdict`.
* `Report.exists_answer_iff` — the lookup gives an answer that spans the position exactly when some
  verdict claims it together with everything around.
* `Grammar.InMemberBlocks` — a site lies in the member blocks of all classes above it.
* `lookup_complete_in_blocks`, `headerLambda_missed` — the result, and a lambda in the header of a
  class that the lookup misses.
-/

namespace Hollow

/-! ## Answers that span the position -/

namespace Verdict

/-- The verdict is empty and spans the position. -/
def Answers (p : Position) (v : Verdict) : Prop :=
  v.isEmpty = true ∧ v.declaration.effectiveSpan.contains p = true

/-- A verdict that waits for its body does not span the position. -/
theorem Awaits.not_contains {p : Position} {v : Verdict} (h : v.Awaits p) :
    ¬v.declaration.effectiveSpan.contains p = true := by
  obtain ⟨_, body, hbody, _, hplace⟩ := h
  have hspan : v.declaration.effectiveSpan = body := by
    rw [DeclarationRef.effectiveSpan, Option.mem_def.mp hbody, Option.getD_some]
  rw [hspan, Span.contains_iff]
  rintro ⟨_, hlast⟩
  unfold Position.AtMost Span.last at hlast
  simp only at hlast
  omega

end Verdict

/-- **When the lookup answers with a verdict that spans the position.** -/
theorem Report.exists_answer_iff (r : Report) (p : Position) :
    (∃ v, r.locateEmpty p = some v ∧ v.Answers p) ↔ ∃ s ∈ r.spots, s.Claims p := by
  rw [r.locateEmpty_eq p, located?]
  constructor
  · rintro ⟨v, hv, _, hcontains⟩
    obtain ⟨s, hs, rfl⟩ := Option.map_eq_some_iff.mp hv
    rcases Option.or_eq_some_iff.mp hs with hs | ⟨_, hs⟩
    · obtain ⟨hmem, hclaims⟩ := List.mem_filter.mp (List.mem_of_getLast? hs)
      exact ⟨s, hmem, of_decide_eq_true hclaims⟩
    · -- The second search is for bodies that end before the position.
      obtain ⟨_, hawaits⟩ := List.mem_filter.mp (List.mem_of_getLast? hs)
      exact absurd hcontains (of_decide_eq_true hawaits).not_contains
  · rintro ⟨s, hs, hclaims⟩
    have hne : r.spots.filter (Spot.Claims p) ≠ [] :=
      List.ne_nil_of_mem (List.mem_filter.mpr ⟨hs, decide_eq_true hclaims⟩)
    obtain ⟨t, ht⟩ : ∃ t, (r.spots.filter (Spot.Claims p)).getLast? = some t :=
      ⟨_, List.getLast?_eq_some_getLast hne⟩
    have hclaims := of_decide_eq_true (List.mem_filter.mp (List.mem_of_getLast? ht)).2
    rw [ht]
    exact ⟨t.verdict, rfl, hclaims.1, hclaims.2 _ List.mem_cons_self⟩

namespace Grammar

/-! ## Bodies in their trees -/

section

variable {g : Grammar} {source : Source} {root : Node} {s t : Site}

/-- The node whose span a declaration answers for. -/
def ground (g : Grammar) (n : Node) : Node := (g.bodyNode n).getD n

/-- The body of a node lies inside the node. -/
theorem bodyNode_within {n b : Node} (hn : n.HoldsChildren) (hb : g.bodyNode n = some b) :
    b.Within n := by
  have hfield : ∀ {c}, n.childByField g.bodyField = some c → c.Within n := fun hc =>
    hn _ (List.mem_of_find?_eq_some hc)
  have hnamed : ∀ c ∈ n.namedChildren, c.Within n := fun c hc => hn c (List.mem_filter.mp hc).1
  unfold bodyNode at hb
  split at hb
  · exact hfield hb
  · obtain rfl := Option.some.inj hb
    exact Node.Within.refl _
  · exact hnamed _ (List.mem_of_find?_eq_some hb)
  · rcases Option.or_eq_some_iff.mp hb with hb | ⟨_, hb⟩
    · exact hfield hb
    · exact hnamed _ (List.mem_of_getLast? (Option.filter_eq_some_iff.mp hb).1)

theorem bodySpan_of_declarationAt (hs : s ∈ root.sites) {d : Declaration}
    (hd : g.declarationAt source root s = some d) :
    d.bodySpan = (g.bodyNode s.node).map (·.span source) := by
  rw [Declaration.bodySpan, (span_body_of_declarationAt hs hd).2]
  split_ifs
  · cases hb : g.bodyNode s.node <;> simp [memberBlock, hb]
  · cases hb : g.bodyNode s.node <;> simp [body, hb]

variable {noOps : Bool} {v : Verdict}

theorem bodySpan_of_hasVerdict (hs : s ∈ root.sites) (hv : g.HasVerdict source root noOps s v) :
    v.declaration.bodySpan = (g.bodyNode s.node).map (·.span source) := by
  obtain ⟨d, hd, hv⟩ := hv
  rw [classify_declaration hv, ← bodySpan_of_declarationAt hs hd]
  rfl

/-- A verdict answers for the body of its node, or else for the node. -/
theorem effectiveSpan_of_hasVerdict (hs : s ∈ root.sites)
    (hv : g.HasVerdict source root noOps s v) :
    v.declaration.effectiveSpan = (g.ground s.node).span source := by
  have hspan : v.declaration.span = s.node.span source := by
    obtain ⟨d, hd, hv⟩ := hv
    rw [classify_declaration hv, ← (span_body_of_declarationAt hs hd).1]
    rfl
  rw [DeclarationRef.effectiveSpan, bodySpan_of_hasVerdict hs hv, hspan, ground]
  cases g.bodyNode s.node <;> rfl

/-! ## Member blocks -/

/-- The site lies in the member blocks of all classes above it, as far as they have one. -/
def InMemberBlocks (g : Grammar) (s : Site) : Prop :=
  ∀ t ∈ g.classesAbove s, ∀ b ∈ g.bodyNode t.node, s.node.Within b

instance (g : Grammar) : DecidablePred g.InMemberBlocks := fun s =>
  inferInstanceAs (Decidable (∀ t ∈ g.classesAbove s, ∀ b ∈ g.bodyNode t.node, s.node.Within b))

/-- Then it lies in all that the verdicts around it answer for. -/
theorem InMemberBlocks.within_ground (hblocks : g.InMemberBlocks s)
    (hroot : root.Everywhere Node.HoldsChildren) (hs : s ∈ root.sites)
    (ht : t ∈ g.classesAbove s) : s.node.Within (g.ground t.node) := by
  unfold ground
  cases hb : g.bodyNode t.node with
  | none => exact within_of_mem_above hroot hs (List.mem_filter.mp ht).1
  | some b => exact hblocks t ht b hb

/-- A place about a site in member blocks claims the positions of its body. -/
theorem claims_of_inMemberBlocks {spot : Spot} {p : Position}
    (hroot : root.Everywhere Node.HoldsChildren) (habout : g.IsAbout source root noOps spot s)
    (hblocks : g.InMemberBlocks s) (hempty : spot.verdict.isEmpty = true)
    (hbody : ∃ body ∈ spot.verdict.declaration.bodySpan, body.contains p = true) :
    spot.Claims p := by
  obtain ⟨hs, hverdicts⟩ := habout
  obtain ⟨hself, haround⟩ := List.forall₂_cons.mp hverdicts
  obtain ⟨body, hmem, hp⟩ := hbody
  rw [bodySpan_of_hasVerdict hs hself] at hmem
  obtain ⟨b, hb, rfl⟩ := Option.map_eq_some_iff.mp hmem
  have hwithin := bodyNode_within (hroot s hs) hb
  refine ⟨hempty, List.forall_mem_cons.mpr ⟨?_, fun a ha => ?_⟩⟩
  · rw [effectiveSpan_of_hasVerdict hs hself, ground, hb]
    exact hp
  · -- The body lies in the node, and the node in what every class above answers for.
    obtain ⟨t, ht, hta⟩ := exists_rel_of_mem_right haround ha
    have htsites := mem_sites_of_mem_above hs (List.mem_filter.mp ht).1
    rw [effectiveSpan_of_hasVerdict htsites hta]
    exact Node.contains_of_within (hwithin.trans (hblocks.within_ground hroot hs ht)) hp

end

/-! ## Completeness -/

/-- **Position lookup is complete inside of member blocks.**  For every table, source, tree whose
children lie inside their parents, policy, options and position: the lookup answers with an empty
verdict that spans the position exactly when some verdict claims the position together with all
verdicts around it.  That is so whenever the body of an empty declaration spans the position and
its node lies in the member blocks of all classes above it. -/
theorem lookup_complete_in_blocks {g : Grammar} {language path : String}
    {policy : UnsupportedPolicy} {source : Source} {root : Node} {unit : SourceUnit}
    (hroot : root.Everywhere Node.HoldsChildren)
    (hunit : g.canonicalize language policy path source root = .ok unit) {options : Options}
    {u : UnitReport} (hu : classifyUnit options unit = .ok u) (p : Position) :
    ((∃ v, u.report.locateEmpty p = some v ∧ v.Answers p) ↔
        ∃ spot ∈ u.report.spots, spot.Claims p) ∧
      ∀ spot ∈ u.report.spots, spot.verdict.isEmpty = true →
        (∃ body ∈ spot.verdict.declaration.bodySpan, body.contains p = true) →
        (∀ s, g.IsAbout source root options.noOpsAreEmpty spot s → g.InMemberBlocks s) →
        ∃ v, u.report.locateEmpty p = some v ∧ v.Answers p := by
  refine ⟨u.report.exists_answer_iff p, fun spot hspot hempty hbody hblocks => ?_⟩
  obtain ⟨_, rfl⟩ := classifyUnit_eq_ok_iff.mp hu
  obtain ⟨s, habout⟩ := exists_site_of_mem_spots (nestingRule_of_canonicalize hroot hunit) spot hspot
  rw [Report.exists_answer_iff]
  exact ⟨spot, hspot, claims_of_inMemberBlocks hroot habout (hblocks s habout) hempty hbody⟩

/-- A class with an empty method. -/
def stubSource : Source := Utf8.encode "class A \x7b void f() \x7b\x7d \x7d"

/-- Its tree. -/
def stubTree : Node :=
  .named none "program" 0 23 [.named none "class_declaration" 0 23
    [.token "class" 0 5, .named "name" "identifier" 6 7 [],
      .named "body" "class_body" 8 23
        [.token "\x7b" 8 9,
          .named none "method_declaration" 10 21
            [.named "type" "void_type" 10 14 [], .named "name" "identifier" 15 16 [],
              .named "parameters" "formal_parameters" 16 18 [.token "(" 16 17, .token ")" 17 18],
              .named "body" "block" 19 21 [.token "\x7b" 19 20, .token "\x7d" 20 21]],
          .token "\x7d" 22 23]]]

theorem stubTree_lookup_complete :
    ∃ unit u, java.canonicalize "java" .skip "A.java" stubSource stubTree = .ok unit ∧
      classifyUnit {} unit = .ok u ∧
      ∃ v, u.report.locateEmpty ⟨1, 21⟩ = some v ∧ v.Answers ⟨1, 21⟩ := by
  have hcandidates : java.candidates stubTree = _ := candidates_of_pairwise (by decide)
  obtain ⟨unit, u, hunit, hu, spot, hspot, hempty, hbody⟩ :
      ∃ unit u, java.canonicalize "java" .skip "A.java" stubSource stubTree = .ok unit ∧
        classifyUnit {} unit = .ok u ∧ ∃ spot ∈ u.report.spots, spot.verdict.isEmpty = true ∧
        ∃ body ∈ spot.verdict.declaration.bodySpan, body.contains ⟨1, 21⟩ = true := by
    simp only [canonicalize, hcandidates]
    exact ⟨_, _, rfl, rfl, _, List.mem_cons_of_mem _ List.mem_cons_self, rfl, _, rfl, rfl⟩
  have hblocks : ∀ s ∈ stubTree.sites, (java.rule? s).isSome = true → java.InMemberBlocks s := by
    decide
  have hcomplete := lookup_complete_in_blocks (by decide) hunit hu ⟨1, 21⟩
  exact ⟨unit, u, hunit, hu, hcomplete.2 spot hspot hempty hbody fun s habout =>
    hblocks s habout.1 habout.isSome_rule?⟩

/-- A class with a lambda in its header. -/
def headerSource : Source := Utf8.encode "class A extends B(x => \x7b\x7d) \x7b\x7d"

/-- Its tree. -/
def headerTree : Node :=
  .named none "compilation_unit" 0 29 [.named none "class_definition" 0 29
    [.token "class" 0 5, .named "name" "identifier" 6 7 [],
      .named "extend" "extends_clause" 8 26
        [.token "extends" 8 15, .named "type" "type_identifier" 16 17 [],
          .named "arguments" "arguments" 17 26
            [.token "(" 17 18,
              .named none "lambda_expression" 18 25
                [.named "parameters" "identifier" 18 19 [], .token "=>" 20 22,
                  .named none "block" 23 25 [.token "\x7b" 23 24, .token "\x7d" 24 25]],
              .token ")" 25 26]],
      .named "body" "template_body" 27 29 [.token "\x7b" 27 28, .token "\x7d" 28 29]]]

/-- The lambda is empty and its body spans the position between its braces, yet the lookup finds
nothing there. -/
theorem headerLambda_missed :
    headerTree.Everywhere Node.HoldsChildren ∧ headerTree.Everywhere Node.ChildrenInOrder ∧
      ∃ unit u, scala.canonicalize "scala" .skip "Main.scala" headerSource headerTree = .ok unit ∧
        classifyUnit {} unit = .ok u ∧
        (∃ v ∈ u.report.allVerdicts, v.isEmpty = true ∧ ∃ body ∈ v.declaration.bodySpan,
          body.contains (headerSource.position 24) = true) ∧
        u.report.locateEmpty (headerSource.position 24) = none := by
  have hcandidates : scala.candidates headerTree = _ := candidates_of_pairwise (by decide)
  simp only [canonicalize, hcandidates]
  exact ⟨by decide, by decide, _, _, rfl, rfl,
    ⟨_, List.mem_cons_of_mem _ List.mem_cons_self, rfl, _, rfl, rfl⟩, rfl⟩

end Grammar

end Hollow
