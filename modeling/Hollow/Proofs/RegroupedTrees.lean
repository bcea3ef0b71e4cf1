import Hollow.Proofs.Enclosure
import Hollow.Proofs.Reports
import Hollow.Proofs.Ungrouping

/-!
# Regrouped trees

A tree and the tree without containers are worked on side by side: after every step both runs have
come to the same declarations.  So they lead to the same unit, and so do any two trees that differ
in the grouping of statements only.

* `Progress.Alike`, `step_alike`, `placeAll_alike` — what both runs have in common, after one step
  and after all of them.
* `canonicalize_ungroup` — containers leave no trace in a unit.
* `Grammar.RegroupsInside` — trees that differ in the grouping of statements.
* `statements_are_flattened_block` — what a block's statements are, and that grouping does not
  matter.
-/

namespace Hollow

/-! ## Declarations outside of classes -/

/-- Placed outside of all classes, and no class itself. -/
structure Placed.Loose (p : Placed) : Prop where
  isClass : p.isClass = false
  parent : p.parent = none
  members : p.declaration.members = none

theorem forest_of_loose {ps : List Placed} (h : ∀ p ∈ ps, p.Loose) :
    forest none ps = ps.map (·.declaration) := by
  induction ps with
  | nil => rfl
  | cons p ps ih =>
    rw [List.forall_mem_cons] at h
    obtain ⟨number, index, ⟨id, kind, name, span, body, members⟩, parent⟩ := p
    obtain rfl : parent = none := h.1.parent
    obtain rfl : members = none := h.1.members
    rw [forest, if_pos rfl, ih h.2]
    rfl

theorem nearest_of_loose {placed : List Placed} (h : ∀ p ∈ placed, p.Loose) (s : Site) :
    s.nearest placed Placed.isClass = none ∧
      (s.nearest placed fun _ => true).filter Placed.isClass = none := by
  constructor
  · cases hp : s.nearest placed Placed.isClass with
    | none => rfl
    | some p =>
      obtain ⟨hmem, hclass⟩ := Site.mem_of_nearest hp
      exact absurd hclass (by simp [(h p hmem).isClass])
  · cases hp : s.nearest placed fun _ => true with
    | none => rfl
    | some p => simp [Option.filter_some, (h p (Site.mem_of_nearest hp).1).isClass]

/-! ## Runs side by side -/

/-- Two runs have come to the same declarations and faults. -/
structure Progress.Alike (p q : Progress) : Prop where
  declarations : q.placed.map (·.declaration) = p.placed.map (·.declaration)
  skipped : q.skipped = p.skipped
  loose : ∀ x ∈ p.placed, x.Loose
  loose' : ∀ x ∈ q.placed, x.Loose

/-- Two runs end with the same fault, or come to the same. -/
inductive SameOutcome : Except Fault Progress → Except Fault Progress → Prop
  | ok {p q : Progress} : p.Alike q → SameOutcome (.ok p) (.ok q)
  | error (fault : Fault) : SameOutcome (.error fault) (.error fault)

namespace Grammar

variable {g : Grammar} {source : Source}

section

variable {c d : Candidate} (h : Candidate.Alike g c d)
include h

theorem ruleOf_of_alike : g.ruleOf d = g.ruleOf c := by
  rw [ruleOf, ruleOf, h.isDeclaration, h.node, kind_ungroup]

theorem nameNode_of_alike {from_ : NameSource} (hfrom : from_ ≠ .declarator) :
    g.nameNode d.site from_ = (g.nameNode c.site from_).map g.ungroup := by
  cases from_ with
  | field name => rw [nameNode, nameNode, h.node, childByField_ungroup h.kind]
  | declarator => exact absurd rfl hfrom
  | binding =>
    rw [nameNode, nameNode, bindingTarget_eq, bindingTarget_eq, h.node, startByte_ungroup]
    exact h.above _
  | anonymous => rfl

theorem declarationName_of_alike {from_ : NameSource} (hfrom : from_ ≠ .declarator) :
    g.declarationName source d.site from_ = g.declarationName source c.site from_ := by
  rw [declarationName, declarationName, nameNode_of_alike h hfrom, Option.map_map]
  simp only [Function.comp_def, text_ungroup]

end

/-- A declaration of a table without classes, in closed form. -/
theorem place_of_loose {placed : List Placed} (h : ∀ p ∈ placed, p.Loose) (s : Site) {rule : Rule}
    (hrule : rule.kind ≠ .classLike) :
    g.place source placed s rule =
      { number := s.number, index := placed.length, parent := none
        declaration :=
          { id := placed.length % UInt32.size
            kind := g.refineKind rule.kind (g.declarationName source s rule.name) none
            name := g.declarationName source s rule.name, span := s.node.span source
            body := g.body source s.node, members := none } } := by
  obtain ⟨howner, hclass⟩ := nearest_of_loose h s
  have hkind : g.refineKind rule.kind (g.declarationName source s rule.name) none ≠ .classLike := by
    rwa [Ne, refineKind_eq_classLike_iff]
  simp only [place, howner, hclass, Option.map_none, if_neg hkind]

theorem place_loose {placed : List Placed} (h : ∀ p ∈ placed, p.Loose) (s : Site) {rule : Rule}
    (hrule : rule.kind ≠ .classLike) : (g.place source placed s rule).Loose := by
  rw [place_of_loose h s hrule]
  refine ⟨?_, rfl, rfl⟩
  rw [Placed.isClass, beq_eq_false_iff_ne, Ne, refineKind_eq_classLike_iff]
  exact hrule

theorem mem_rules_of_ruleOf {c : Candidate} {rule : Rule} (h : g.ruleOf c = some rule) :
    rule ∈ g.rules := by
  unfold ruleOf at h
  split_ifs at h
  exact List.mem_of_find?_eq_some h

/-- One step on alike candidates. -/
theorem step_alike (hg : g.Regroupable) (policy : UnsupportedPolicy) {p q : Progress}
    {c d : Candidate} (hpq : Progress.Alike p q) (hcd : Candidate.Alike g c d) :
    SameOutcome (g.step policy source p c) (g.step policy source q d) := by
  unfold step
  rw [ruleOf_of_alike hcd]
  cases hrule : g.ruleOf c with
  | some rule =>
    obtain ⟨hclass, hname⟩ := hg.callables rule (mem_rules_of_ruleOf hrule)
    have hlength : q.placed.length = p.placed.length := by
      simpa using congrArg List.length hpq.declarations
    refine .ok ⟨?_, hpq.skipped, ?_, ?_⟩
    · rw [List.map_append, List.map_append, hpq.declarations, List.map_singleton,
        List.map_singleton, place_of_loose hpq.loose _ hclass, place_of_loose hpq.loose' _ hclass,
        declarationName_of_alike hcd hname, hcd.node, span_ungroup, body_ungroup hg hcd.kind,
        hlength]
    · exact List.forall_mem_append.mpr
        ⟨hpq.loose, List.forall_mem_singleton.mpr (place_loose hpq.loose _ hclass)⟩
    · exact List.forall_mem_append.mpr
        ⟨hpq.loose', List.forall_mem_singleton.mpr (place_loose hpq.loose' _ hclass)⟩
  | none =>
    rw [hcd.node, kind_ungroup, span_ungroup]
    cases policy with
    | skip => exact .ok ⟨hpq.declarations, by rw [hpq.skipped], hpq.loose, hpq.loose'⟩
    | abort => exact .error _

/-- Whole runs on alike candidates. -/
theorem placeAll_alike (hg : g.Regroupable) (policy : UnsupportedPolicy) {p q : Progress}
    {cs ds : List Candidate} (hpq : Progress.Alike p q)
    (h : List.Forall₂ (Candidate.Alike g) cs ds) :
    SameOutcome (g.placeAll policy source p cs) (g.placeAll policy source q ds) := by
  induction h generalizing p q with
  | nil => exact .ok hpq
  | @cons c d cs ds hcd _ ih =>
    have hstep : SameOutcome (g.step policy source p c) (g.step policy source q d) :=
      step_alike hg policy hpq hcd
    rw [placeAll, placeAll]
    generalize g.step policy source p c = x at hstep ⊢
    generalize g.step policy source q d = y at hstep ⊢
    cases hstep with
    | ok hnext => exact ih hnext
    | error fault => exact .error fault

/-- **Containers leave no trace in a unit.** -/
theorem canonicalize_ungroup (hg : g.Regroupable) (language : String) (policy : UnsupportedPolicy)
    (path : String) (source : Source) (root : Node) :
    g.canonicalize language policy path source (g.ungroup root) =
      g.canonicalize language policy path source root := by
  have hrun : SameOutcome (g.placeAll policy source {} (g.candidates root))
      (g.placeAll policy source {} (g.candidates (g.ungroup root))) :=
    placeAll_alike hg policy ⟨rfl, rfl, by simp, by simp⟩ (candidates_ungroup hg root)
  rw [canonicalize, canonicalize]
  generalize g.placeAll policy source {} (g.candidates root) = x at hrun ⊢
  generalize g.placeAll policy source {} (g.candidates (g.ungroup root)) = y at hrun ⊢
  cases hrun with
  | ok h =>
    simp only [forest_of_loose h.loose, forest_of_loose h.loose', h.declarations, h.skipped,
      hasError_ungroup]
  | error fault => rfl

/-! ## Regrouped trees -/

/-- In one block of a tree, a run of children is put into a container of its own. -/
inductive WrapsInside (g : Grammar) : Node → Node → Prop
  | here {n : Node} {children : List Node} : n.kind ∈ g.blockKinds → g.Wraps n.children children →
      WrapsInside g n { n with children }
  | inside {n a b : Node} (front back : List Node) : n.children = front ++ a :: back →
      WrapsInside g a b → WrapsInside g n { n with children := front ++ b :: back }

/-- Runs of children of blocks, all over a tree, are put into containers, and containers are
dissolved, any number of times. -/
def RegroupsInside (g : Grammar) : Node → Node → Prop := Relation.EqvGen g.WrapsInside

theorem ungroup_eq (n : Node) :
    g.ungroup n = { n with
      children :=
        if n.kind ∈ g.blockKinds then g.dissolveAll n.children else g.ungroupAll n.children } := by
  cases n
  simp only [ungroup, List.contains_iff_mem]

theorem dissolve_eq (n : Node) :
    g.dissolve n = if n.kind ∈ g.containers then g.dissolveAll n.children else [g.ungroup n] := by
  cases n
  simp only [dissolve, ungroup, List.contains_iff_mem]

theorem dissolveAll_append (ns ms : List Node) :
    g.dissolveAll (ns ++ ms) = g.dissolveAll ns ++ g.dissolveAll ms := by
  rw [dissolveAll_eq_map, dissolveAll_eq_map, dissolveAll_eq_map, flattenAll_append,
    List.map_append]

theorem same_of_children {n : Node} {children : List Node}
    (hungroup : n.kind ∈ g.blockKinds ∨ g.ungroupAll n.children = g.ungroupAll children)
    (hdissolve : g.dissolveAll n.children = g.dissolveAll children) :
    g.ungroup n = g.ungroup { n with children } ∧
      g.dissolve n = g.dissolve { n with children } := by
  have hn : g.ungroup n = g.ungroup { n with children } := by
    rw [ungroup_eq, ungroup_eq { n with children }]
    split_ifs with hblock
    · rw [hdissolve]
    · rw [hungroup.resolve_left hblock]
  refine ⟨hn, ?_⟩
  rw [dissolve_eq, dissolve_eq { n with children }, hdissolve, hn]

theorem WrapsInside.same {n m : Node} (h : g.WrapsInside n m) :
    g.ungroup n = g.ungroup m ∧ g.dissolve n = g.dissolve m := by
  induction h with
  | here hblock hwraps =>
    refine same_of_children (.inl hblock) ?_
    rw [dissolveAll_eq_map, dissolveAll_eq_map, hwraps.flattenAll_eq]
  | inside _ _ hchildren _ ih =>
    refine same_of_children (.inr ?_) ?_
    · rw [hchildren, ungroupAll_eq, ungroupAll_eq, List.map_append, List.map_append, List.map_cons,
        List.map_cons, ih.1]
    · rw [hchildren, dissolveAll_append, dissolveAll_append, dissolveAll, dissolveAll, ih.2]

theorem RegroupsInside.ungroup_eq {n m : Node} (h : g.RegroupsInside n m) :
    g.ungroup n = g.ungroup m := by
  induction h with
  | rel _ _ h => exact h.same.1
  | refl => rfl
  | symm _ _ _ ih => exact ih.symm
  | trans _ _ _ _ _ ih ih' => exact ih.trans ih'

/-- **The statements of a block do not show how its children are grouped.**  In every built-in
language, the body of a node whose body is a block has one statement for each of the block's
children, with containers replaced by their own children at every depth, that is not punctuation:
in their order, with the category, the kind and the span of the child, and nothing else.  In Go the
children of a block can be regrouped into all those that flatten alike, without changing its
statements; and trees that are regrouped in any of their blocks have the same unit and the same
verdicts. -/
theorem statements_are_flattened_block :
    (∀ l ∈ builtinLanguages, ∀ (source : Source) (n b : Node),
      l.grammar.bodyNode n = some b → b.kind ∈ l.grammar.blockKinds →
      ∃ body, l.grammar.body source n = some body ∧
        List.Forall₂ (l.grammar.StandsFor source)
          ((l.grammar.flattenAll b.children).filter fun c => !l.grammar.delimiters.contains c.kind)
          body.statements) ∧
    (∀ ns ms : List Node, (go.Regroups ns ms ↔ go.flattenAll ns = go.flattenAll ms) ∧
      (go.Regroups ns ms →
        ∀ source, go.statementsOfAll source ns = go.statementsOfAll source ms)) ∧
    ∀ root root' : Node, go.RegroupsInside root root' →
      ∀ (policy : UnsupportedPolicy) (path : String) (source : Source),
        go.canonicalize "go" policy path source root =
          go.canonicalize "go" policy path source root' ∧
        ∀ options, (go.canonicalize "go" policy path source root).bind (classifyUnit options) =
          (go.canonicalize "go" policy path source root').bind (classifyUnit options) := by
  refine ⟨fun l hl source n b hb hblock => ?_, fun ns ms => ⟨regroups_iff, fun h source => ?_⟩,
    fun root root' h policy path source => ?_⟩
  · refine ⟨_, congrArg _ hb, ?_⟩
    simp only [List.contains_iff_mem.mpr hblock, if_true]
    exact statements_stand_for (tellsCode_builtin l hl) source b.children
  · rw [statementsOfAll_eq, statementsOfAll_eq, h.flattenAll_eq]
  · have hunit : go.canonicalize "go" policy path source root =
        go.canonicalize "go" policy path source root' := by
      rw [← canonicalize_ungroup regroupable_go, h.ungroup_eq, canonicalize_ungroup regroupable_go]
    exact ⟨hunit, fun options => by rw [hunit]⟩

/-- A function that makes a call, with a comment in front of it. -/
def callSource : Source := Utf8.encode "func f() \x7b /* c */ a() \x7d"

/-- The comment and the call. -/
def callStatements : List Node :=
  [.named none "comment" 11 18 [],
    .named none "expression_statement" 19 22 [.named none "call_expression" 19 22 []]]

/-- Both in a list. -/
def callList : Node := .named none "statement_list" 11 22 callStatements

/-- The block of the function, with what stands between the braces. -/
def callBlock (inside : List Node) : Node :=
  .named "body" "block" 9 24 (.token "\x7b" 9 10 :: inside ++ [.token "\x7d" 23 24])

/-- What stands in front of the block. -/
def callHead : List Node :=
  [.token "func" 0 4, .named "name" "identifier" 5 6 [],
    .named "parameters" "parameter_list" 6 8 [.token "(" 6 7, .token ")" 7 8]]

/-- The function, with what stands between the braces. -/
def callFunction (inside : List Node) : Node :=
  .named none "function_declaration" 0 24 (callHead ++ [callBlock inside])

theorem callFunction_regrouped :
    (∃ body, go.body callSource (callFunction [callList]) = some body ∧
        List.Forall₂ (go.StandsFor callSource) callStatements body.statements) ∧
      go.statementsOfAll callSource callStatements = go.statementsOfAll callSource [callList] ∧
      go.canonicalize "go" .abort "f.go" callSource
          (.named none "source_file" 0 24 [callFunction callStatements]) =
        go.canonicalize "go" .abort "f.go" callSource
          (.named none "source_file" 0 24 [callFunction [callList]]) := by
  have hmem : ⟨"go", ["go"], go⟩ ∈ builtinLanguages := by simp [builtinLanguages]
  have hgroup : callList.kind ∈ go.containers := by decide
  have hblock : (callBlock callStatements).kind ∈ go.blockKinds := by decide
  have hinside : go.WrapsInside (callBlock callStatements) (callBlock [callList]) :=
    .here hblock (.wrap [.token "\x7b" 9 10] [.token "\x7d" 23 24] hgroup)
  have hfunction : go.WrapsInside (callFunction callStatements) (callFunction [callList]) :=
    .inside callHead [] rfl hinside
  obtain ⟨hbody, hstatements, hunit⟩ := statements_are_flattened_block
  refine ⟨hbody _ hmem callSource _ (callBlock [callList]) rfl hblock,
    (hstatements _ _).2 (.rel _ _ (.wrap [] [] hgroup)) callSource, ?_⟩
  exact (hunit _ _ (.rel _ _ (.inside [] [] rfl hfunction)) _ _ _).1

end Grammar

end Hollow
