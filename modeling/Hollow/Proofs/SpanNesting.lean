import Hollow.Proofs.Content
import Hollow.Proofs.LookupCompleteness

/-!
# Spans nest and come in order

In a tree that fits together the spans of a unit do so too: members lie inside their class, bodies
inside their declaration and statements inside their body, and everything that is listed is listed
in source order.

* `Node.Has` — a node occurs in a tree, and so do its children;
* `Grammar.flattenAll_within`, `Grammar.flattenAll_pairwise` — dissolving containers keeps what it
  brings up inside of the block, in order and without overlap;
* `Grammar.statements_of_body` — so do the statements of a body;
* `Grammar.exists_site_of_mem_walkAll` — every declaration of a unit stands for a site of the tree;
* `SourceUnit.NestedSpans`, `canonicalize_nests_spans` — the contract.
-/

namespace Hollow

/-! ## Spans by their bytes -/

namespace Span

/-- The bytes lie inside those of another span. -/
def Inside (s outer : Span) : Prop := outer.startByte ≤ s.startByte ∧ s.endByte ≤ outer.endByte

/-- Source order: by start, and of those with one start the longer first. -/
def Precedes (s t : Span) : Prop :=
  s.startByte < t.startByte ∨ s.startByte = t.startByte ∧ t.endByte ≤ s.endByte

end Span

/-- The spans of a unit nest and come in source order. -/
structure SourceUnit.NestedSpans (unit : SourceUnit) : Prop where
  /-- Members lie inside their class. -/
  members : ∀ d ∈ Declaration.walkAll unit.declarations, ∀ m ∈ d.memberList, m.span.Inside d.span
  /-- The body of a declaration lies inside of it. -/
  bodies : ∀ d ∈ Declaration.walkAll unit.declarations, ∀ b ∈ d.bodySpan, b.Inside d.span
  /-- Statements lie inside their body, one behind the other. -/
  statements : ∀ d ∈ Declaration.walkAll unit.declarations, ∀ body ∈ d.body,
    (∃ span, body.span = some span ∧ ∀ s ∈ body.statements, s.span.Inside span) ∧
      body.statements.Pairwise fun s t => s.span.endByte ≤ t.span.startByte
  /-- Member lists are in source order. -/
  memberOrder : ∀ d ∈ Declaration.walkAll unit.declarations,
    d.memberList.Pairwise fun c e => c.span.Precedes e.span
  /-- So is the list of the unit. -/
  topOrder : unit.declarations.Pairwise fun c e => c.span.Precedes e.span
  /-- So is the walk over all of it. -/
  walkOrder : (Declaration.walkAll unit.declarations).Pairwise fun c e => c.span.Precedes e.span

/-! ## Nodes of a tree -/

namespace Node

/-- The node occurs in the tree. -/
def Has (root n : Node) : Prop := ∃ s ∈ root.sites, s.node = n

theorem exists_mem_sitesFromAll {ns : List Node} {n : Node} (hn : n ∈ ns) (number : Nat)
    (ancestors : List (Nat × Node)) : ∃ s ∈ sitesFromAll number ancestors ns, s.node = n := by
  induction ns generalizing number with
  | nil => cases hn
  | cons m ns ih =>
    rw [sitesFromAll]
    rcases List.mem_cons.mp hn with rfl | hn
    · refine ⟨⟨number, n, ancestors⟩, List.mem_append_left _ ?_, rfl⟩
      rw [sitesFrom_eq]
      exact List.mem_cons_self
    · obtain ⟨s, hs, hsn⟩ := ih hn (number + m.size)
      exact ⟨s, List.mem_append_right _ hs, hsn⟩

mutual

theorem exists_child_site : ∀ (number : Nat) (ancestors : List (Nat × Node)) (n : Node),
    ∀ s ∈ sitesFrom number ancestors n, ∀ c ∈ s.node.children,
      ∃ t ∈ sitesFrom number ancestors n, t.node = c
  | number, ancestors, ⟨_, _, _, _, _, _, _, children⟩ => by
    intro s hs c hc
    rw [sitesFrom_eq] at hs ⊢
    rcases List.mem_cons.mp hs with rfl | hs
    · obtain ⟨t, ht, htc⟩ := exists_mem_sitesFromAll hc (number + 1) _
      exact ⟨t, List.mem_cons_of_mem _ ht, htc⟩
    · obtain ⟨t, ht, htc⟩ := exists_child_siteAll _ _ children s hs c hc
      exact ⟨t, List.mem_cons_of_mem _ ht, htc⟩

theorem exists_child_siteAll : ∀ (number : Nat) (ancestors : List (Nat × Node)) (ns : List Node),
    ∀ s ∈ sitesFromAll number ancestors ns, ∀ c ∈ s.node.children,
      ∃ t ∈ sitesFromAll number ancestors ns, t.node = c
  | _, _, [] => by
    intro s hs
    cases hs
  | number, ancestors, n :: ns => by
    intro s hs c hc
    rw [sitesFromAll, List.mem_append] at hs
    rw [sitesFromAll]
    rcases hs with hs | hs
    · obtain ⟨t, ht, htc⟩ := exists_child_site number ancestors n s hs c hc
      exact ⟨t, List.mem_append_left _ ht, htc⟩
    · obtain ⟨t, ht, htc⟩ := exists_child_siteAll _ ancestors ns s hs c hc
      exact ⟨t, List.mem_append_right _ ht, htc⟩

end

variable {root n c : Node}

theorem Has.child (h : root.Has n) (hc : c ∈ n.children) : root.Has c := by
  obtain ⟨s, hs, rfl⟩ := h
  exact exists_child_site 0 [] root s hs c hc

theorem Everywhere.at {P : Node → Prop} (hroot : root.Everywhere P) (h : root.Has n) : P n := by
  obtain ⟨s, hs, rfl⟩ := h
  exact hroot s hs

end Node

namespace Grammar

variable {g : Grammar} {source : Source} {root : Node}

/-! ## Statements of a body -/

mutual

theorem flatten_within (hholds : root.Everywhere Node.HoldsChildren) :
    ∀ n, root.Has n → ∀ m ∈ g.flatten n, m.Within n
  | ⟨kind, field, startByte, endByte, isNamed, isMissing, hasError, children⟩ => by
    intro hn m hm
    rw [flatten] at hm
    split_ifs at hm
    · obtain ⟨c, hc, hmc⟩ := flattenAll_within hholds children (fun c hc => hn.child hc) m hm
      exact hmc.trans (hholds.at hn c hc)
    · rw [List.mem_singleton.mp hm]
      exact Node.Within.refl _

/-- What comes up from a container lies where the container is. -/
theorem flattenAll_within (hholds : root.Everywhere Node.HoldsChildren) :
    ∀ ns, (∀ n ∈ ns, root.Has n) → ∀ m ∈ g.flattenAll ns, ∃ n ∈ ns, m.Within n
  | [] => by
    intro _ m hm
    cases hm
  | n :: ns => by
    intro hns m hm
    rw [List.forall_mem_cons] at hns
    rw [flattenAll, List.mem_append] at hm
    rcases hm with hm | hm
    · exact ⟨n, List.mem_cons_self, flatten_within hholds n hns.1 m hm⟩
    · obtain ⟨c, hc, hmc⟩ := flattenAll_within hholds ns hns.2 m hm
      exact ⟨c, List.mem_cons_of_mem _ hc, hmc⟩

end

mutual

theorem flatten_pairwise (hholds : root.Everywhere Node.HoldsChildren)
    (horder : root.Everywhere Node.ChildrenInOrder) :
    ∀ n, root.Has n → (g.flatten n).Pairwise fun a b => a.endByte ≤ b.startByte
  | ⟨kind, field, startByte, endByte, isNamed, isMissing, hasError, children⟩ => by
    intro hn
    rw [flatten]
    split_ifs
    · exact flattenAll_pairwise hholds horder children (fun c hc => hn.child hc) (horder.at hn)
    · exact List.pairwise_singleton _ _

/-- Neighbours stay one behind the other. -/
theorem flattenAll_pairwise (hholds : root.Everywhere Node.HoldsChildren)
    (horder : root.Everywhere Node.ChildrenInOrder) :
    ∀ ns, (∀ n ∈ ns, root.Has n) → (ns.Pairwise fun a b => a.endByte ≤ b.startByte) →
      (g.flattenAll ns).Pairwise fun a b => a.endByte ≤ b.startByte
  | [] => by
    intro _ _
    exact List.Pairwise.nil
  | n :: ns => by
    intro hns hpairwise
    rw [List.forall_mem_cons] at hns
    rw [List.pairwise_cons] at hpairwise
    rw [flattenAll, List.pairwise_append]
    refine ⟨flatten_pairwise hholds horder n hns.1,
      flattenAll_pairwise hholds horder ns hns.2 hpairwise.2, fun a ha b hb => ?_⟩
    have han := flatten_within hholds n hns.1 a ha
    obtain ⟨m, hm, hbm⟩ := flattenAll_within hholds ns hns.2 b hb
    calc a.endByte ≤ n.endByte := han.2
      _ ≤ m.startByte := hpairwise.1 m hm
      _ ≤ b.startByte := hbm.1

end

theorem span_of_statement? {n : Node} {st : Statement} (h : g.statement? source n = some st) :
    st.span = n.span source := by
  obtain ⟨category, _, rfl⟩ := Option.map_eq_some_iff.mp h
  rfl

theorem statementsOfAll_inside (hholds : root.Everywhere Node.HoldsChildren) {b : Node}
    (hb : root.Has b) :
    ∀ st ∈ g.statementsOfAll source b.children, st.span.Inside (b.span source) := by
  intro st hst
  rw [statementsOfAll_eq] at hst
  obtain ⟨n, hn, hst⟩ := List.mem_filterMap.mp hst
  obtain ⟨c, hc, hnc⟩ := flattenAll_within hholds b.children (fun c hc => hb.child hc) n hn
  rw [span_of_statement? hst]
  exact hnc.trans (hholds.at hb c hc)

theorem statementsOfAll_pairwise (hholds : root.Everywhere Node.HoldsChildren)
    (horder : root.Everywhere Node.ChildrenInOrder) {b : Node} (hb : root.Has b) :
    (g.statementsOfAll source b.children).Pairwise fun s t =>
      s.span.endByte ≤ t.span.startByte := by
  rw [statementsOfAll_eq, List.pairwise_filterMap]
  have hflat := @flattenAll_pairwise g root hholds horder b.children (fun c hc => hb.child hc)
    (horder.at hb)
  refine hflat.imp fun hab s hs t ht => ?_
  rw [span_of_statement? hs, span_of_statement? ht]
  exact hab

theorem has_bodyNode {n b : Node} (hn : root.Has n) (hb : g.bodyNode n = some b) : root.Has b := by
  unfold bodyNode at hb
  split at hb
  · exact hn.child (List.mem_of_find?_eq_some hb)
  · exact Option.some.inj hb ▸ hn
  · exact hn.child (List.mem_filter.mp (List.mem_of_find?_eq_some hb)).1
  · rcases Option.or_eq_some_iff.mp hb with hb | ⟨_, hb⟩
    · exact hn.child (List.mem_of_find?_eq_some hb)
    · have hlast := List.mem_of_getLast? (Option.filter_eq_some_iff.mp hb).1
      exact hn.child (List.mem_filter.mp hlast).1

/-- The statements of a body lie inside of it, one behind the other. -/
theorem statements_of_body (hholds : root.Everywhere Node.HoldsChildren)
    (horder : root.Everywhere Node.ChildrenInOrder) {n : Node} (hn : root.Has n) {body : Body}
    (hbody : g.body source n = some body) :
    (∃ span, body.span = some span ∧ ∀ s ∈ body.statements, s.span.Inside span) ∧
      body.statements.Pairwise fun s t => s.span.endByte ≤ t.span.startByte := by
  obtain ⟨b, hb, rfl⟩ := Option.map_eq_some_iff.mp hbody
  have hhas := has_bodyNode hn hb
  simp only
  split_ifs
  · exact ⟨⟨_, rfl, statementsOfAll_inside hholds hhas⟩,
      statementsOfAll_pairwise hholds horder hhas⟩
  · -- A body that is no block is its only statement.
    refine ⟨⟨_, rfl, fun s hs => ?_⟩, List.pairwise_singleton _ _⟩
    rw [List.mem_singleton.mp hs]
    exact ⟨Nat.le_refl _, Nat.le_refl _⟩

/-! ## Declarations and their sites -/

section

variable {unit : SourceUnit}

/-- Members of a class stand for sites with this class above them. -/
theorem exists_site_of_mem_memberList (h : g.NestingRule source root unit) {t : Site}
    (ht : t ∈ root.sites) {d : Declaration} (hd : g.declarationAt source root t = some d)
    {m : Declaration} (hm : m ∈ d.memberList) :
    ∃ s ∈ root.sites, g.declarationAt source root s = some m ∧ t ∈ s.above := by
  have hmembers := h.members t ht d hd
  split_ifs at hmembers
  · rw [Declaration.memberList_some hmembers] at hm
    obtain ⟨s, hs, howner, hsm⟩ := mem_declarationsWhere_iff.mp hm
    obtain ⟨c, hc, hnumber⟩ := Option.map_eq_some_iff.mp (beq_iff_eq.mp howner)
    have habove := (exists_placed_of_enclosingClass hc).1
    obtain rfl := eq_of_number_eq (mem_sites_of_mem_above hs habove) ht hnumber
    exact ⟨s, hs, hsm, habove⟩
  · rw [Declaration.memberList_none hmembers] at hm
    cases hm

/-- Every declaration of a unit stands for a site of the tree. -/
theorem exists_site_of_mem_walkAll (h : g.NestingRule source root unit) {d : Declaration}
    (hd : d ∈ Declaration.walkAll unit.declarations) :
    ∃ s ∈ root.sites, g.declarationAt source root s = some d := by
  have hwalk : ∀ (c : Declaration) (t : Site), t ∈ root.sites →
      g.declarationAt source root t = some c →
      ∀ e ∈ c.walk, ∃ s ∈ root.sites, g.declarationAt source root s = some e := by
    intro c
    induction c using Declaration.induction with
    | step c ih =>
      intro t ht hc e he
      rcases Declaration.mem_walk_iff.mp he with rfl | ⟨m, hm, he⟩
      · exact ⟨t, ht, hc⟩
      · obtain ⟨s, hs, hsm, _⟩ := exists_site_of_mem_memberList h ht hc hm
        exact ih m hm s hs hsm e he
  obtain ⟨top, htop, hd⟩ := Declaration.mem_walkAll_iff.mp hd
  rw [h.top] at htop
  obtain ⟨t, ht, _, htd⟩ := mem_declarationsWhere_iff.mp htop
  exact hwalk top t ht htd d hd

end

end Grammar

/-! ## Lists and walks -/

namespace Declaration

theorem sublist_walkAll (ds : List Declaration) : ds.Sublist (walkAll ds) := by
  induction ds with
  | nil => exact List.Sublist.refl _
  | cons d ds ih =>
    rw [walkAll, walk_eq]
    exact (ih.trans (List.sublist_append_right _ _)).cons_cons d

theorem walk_sublist_walkAll {ds : List Declaration} {d : Declaration} (hd : d ∈ ds) :
    d.walk.Sublist (walkAll ds) := by
  rw [walkAll_eq_flatMap, List.flatMap_def]
  exact List.sublist_flatten_of_mem (List.mem_map_of_mem hd)

theorem walk_sublist_of_mem {d e : Declaration} (he : e ∈ d.walk) : e.walk.Sublist d.walk := by
  induction d using Declaration.induction with
  | step d ih =>
    rcases mem_walk_iff.mp he with rfl | ⟨m, hm, he⟩
    · exact List.Sublist.refl _
    · rw [walk_eq d, ← walkAll_eq_flatMap]
      exact ((ih m hm he).trans (walk_sublist_walkAll hm)).cons d

theorem memberList_sublist {ds : List Declaration} {d : Declaration} (hd : d ∈ walkAll ds) :
    d.memberList.Sublist (walkAll ds) := by
  obtain ⟨top, htop, hd⟩ := mem_walkAll_iff.mp hd
  have hmembers : d.memberList.Sublist d.walk := by
    rw [walk_eq, ← walkAll_eq_flatMap]
    exact (sublist_walkAll d.memberList).cons d
  exact hmembers.trans ((walk_sublist_of_mem hd).trans (walk_sublist_walkAll htop))

end Declaration

namespace Grammar

variable {g : Grammar} {source : Source} {root : Node} {unit : SourceUnit}

/-! ## The contract -/

theorem precedes_of_inOrder {s t : Site} (h : Node.InOrder s t)
    (hs : s.node.startByte < s.node.endByte) :
    (s.node.span source).Precedes (t.node.span source) := by
  unfold Span.Precedes Node.span Source.span
  simp only
  rcases h with hwithin | hbehind
  · have := hwithin.1
    have := hwithin.2
    omega
  · omega

/-- A walk goes through the text from front to back, outer declarations first. -/
theorem walkAll_precedes (hg : g.Complete) (hroot : g.FitsTogether root)
    {language path : String} {policy : UnsupportedPolicy}
    (h : g.canonicalize language policy path source root = .ok unit) :
    (Declaration.walkAll unit.declarations).Pairwise fun c e => c.span.Precedes e.span := by
  have hspans : ((Declaration.walkAll unit.declarations).map (·.span)).Pairwise Span.Precedes := by
    rw [walkAll_spans hg hroot h, List.pairwise_map, List.pairwise_filter]
    refine (Node.sites_pairwise 0 [] root hroot.holds hroot.order).imp_of_mem fun hs _ hst => ?_
    intro hdeclares _
    exact precedes_of_inOrder hst (hroot.extent _ hs hdeclares)
  exact List.pairwise_map.mp hspans

theorem nestedSpans_of_canonicalize (hg : g.Complete) (hroot : g.FitsTogether root)
    {language path : String} {policy : UnsupportedPolicy}
    (h : g.canonicalize language policy path source root = .ok unit) : unit.NestedSpans := by
  have hnesting := nestingRule_of_canonicalize hroot.holds h
  have hwalk := walkAll_precedes hg hroot h
  refine ⟨?_, ?_, ?_, ?_, ?_, hwalk⟩
  · intro d hd m hm
    obtain ⟨t, ht, htd⟩ := exists_site_of_mem_walkAll hnesting hd
    obtain ⟨s, hs, hsm, habove⟩ := exists_site_of_mem_memberList hnesting ht htd hm
    rw [(span_body_of_declarationAt hs hsm).1, (span_body_of_declarationAt ht htd).1]
    exact within_of_mem_above hroot.holds hs habove
  · intro d hd b hb
    obtain ⟨t, ht, htd⟩ := exists_site_of_mem_walkAll hnesting hd
    rw [bodySpan_of_declarationAt ht htd] at hb
    obtain ⟨n, hn, rfl⟩ := Option.map_eq_some_iff.mp hb
    rw [(span_body_of_declarationAt ht htd).1]
    exact bodyNode_within (hroot.holds t ht) hn
  · intro d hd body hbody
    obtain ⟨t, ht, htd⟩ := exists_site_of_mem_walkAll hnesting hd
    rw [(span_body_of_declarationAt ht htd).2] at hbody
    split_ifs at hbody
    · -- The body of a class only keeps where the member block is.
      obtain ⟨b, _, rfl⟩ := Option.map_eq_some_iff.mp hbody
      exact ⟨⟨_, rfl, by simp⟩, List.Pairwise.nil⟩
    · exact statements_of_body hroot.holds hroot.order ⟨t, ht, rfl⟩ hbody
  · intro d hd
    exact hwalk.sublist (Declaration.memberList_sublist hd)
  · exact hwalk.sublist (Declaration.sublist_walkAll _)

/-- **Spans nest and come in order.**  In every built-in language, for every source and every tree
that fits together, the unit is built when unsupported constructs are skipped, and its spans nest
and come in source order. -/
theorem canonicalize_nests_spans {l : Language} (hl : l ∈ builtinLanguages) (path : String)
    (source : Source) {root : Node} (hroot : l.grammar.FitsTogether root) :
    ∃ unit, l.grammar.canonicalize l.id .skip path source root = .ok unit ∧ unit.NestedSpans := by
  obtain ⟨unit, hunit⟩ := exists_canonicalize_skip l.grammar l.id path source root
  exact ⟨unit, hunit, nestedSpans_of_canonicalize (complete_builtin l hl) hroot hunit⟩

/-- A class with a method that calls two others. -/
def callsSource : Source := Utf8.encode "class A \x7b void f() \x7b g(); h(); \x7d \x7d"

/-- Its tree. -/
def callsTree : Node :=
  .named none "program" 0 34 [.named none "class_declaration" 0 34
    [.token "class" 0 5, .named "name" "identifier" 6 7 [],
      .named "body" "class_body" 8 34
        [.token "\x7b" 8 9,
          .named none "method_declaration" 10 32
            [.named "type" "void_type" 10 14 [], .named "name" "identifier" 15 16 [],
              .named "parameters" "formal_parameters" 16 18 [.token "(" 16 17, .token ")" 17 18],
              .named "body" "block" 19 32
                [.token "\x7b" 19 20, call 21, call 26, .token "\x7d" 31 32]],
          .token "\x7d" 33 34]]]
where
  call (start : Nat) : Node :=
    .named none "expression_statement" start (start + 4)
      [.named none "method_invocation" start (start + 3)
        [.named "name" "identifier" start (start + 1) [],
          .named "arguments" "argument_list" (start + 1) (start + 3)
            [.token "(" (start + 1) (start + 2), .token ")" (start + 2) (start + 3)]],
        .token ";" (start + 3) (start + 4)]

theorem callsTree_nests_spans :
    ∃ unit, java.canonicalize "java" .skip "A.java" callsSource callsTree = .ok unit ∧
      unit.NestedSpans ∧ ∃ d ∈ Declaration.walkAll unit.declarations, ∃ body ∈ d.body,
        body.statements.map (fun s => (s.span.startByte, s.span.endByte)) =
          [(21, 25), (26, 30)] := by
  have hmem : ⟨"java", ["java"], java⟩ ∈ builtinLanguages := by simp [builtinLanguages]
  have hroot : java.FitsTogether callsTree := ⟨by decide, by decide, by decide⟩
  obtain ⟨unit, hunit, hnested⟩ := canonicalize_nests_spans hmem "A.java" callsSource hroot
  refine ⟨unit, hunit, hnested, ?_⟩
  have hcandidates : java.candidates callsTree = _ := candidates_of_pairwise (by decide)
  simp only [canonicalize, hcandidates] at hunit
  obtain rfl := Except.ok.inj hunit
  exact ⟨_, List.mem_cons_of_mem _ List.mem_cons_self, _, rfl, rfl⟩

end Grammar

end Hollow
