import Hollow.Proofs.Regrouping
import Hollow.Proofs.SourceOrder

/-!
# Trees without containers

Containers can be dissolved in all blocks of a tree at once.  In a table that meets a few
conditions, as that of Go does, the tree without containers says the same: its blocks have the same
statements, its lambdas are bound to the same names, and it has the same candidates.

* `Grammar.ungroup` — the tree with the containers in its blocks dissolved.
* `Grammar.Regroupable` — what is needed of a table; `regroupable_go`: Go meets it.
* `body_ungroup` — bodies stay the same.
* `Grammar.boundTo` — what an expression is bound to, by recursion along its ancestors;
  `bindingTarget_eq` ties it to the search.
* `keepsCandidates`, `candidates_ungroup` — the candidates of a tree are there again in the tree
  without containers, one after the other.
-/

namespace Hollow

namespace Grammar

variable {g : Grammar} {source : Source}

/-! ## Trees without containers -/

section

variable (g : Grammar)

mutual

/-- The tree with the containers in its blocks dissolved. -/
def ungroup : Node → Node
  | ⟨kind, field, startByte, endByte, isNamed, isMissing, hasError, children⟩ =>
    ⟨kind, field, startByte, endByte, isNamed, isMissing, hasError,
      if g.blockKinds.contains kind then dissolveAll children else ungroupAll children⟩

/-- Neighbouring trees with the containers in their blocks dissolved. -/
def ungroupAll : List Node → List Node
  | [] => []
  | n :: ns => ungroup n :: ungroupAll ns

/-- What takes the place of a child of a block. -/
def dissolve : Node → List Node
  | ⟨kind, field, startByte, endByte, isNamed, isMissing, hasError, children⟩ =>
    if g.containers.contains kind then dissolveAll children
    else [⟨kind, field, startByte, endByte, isNamed, isMissing, hasError,
      if g.blockKinds.contains kind then dissolveAll children else ungroupAll children⟩]

/-- What takes the place of the children of a block. -/
def dissolveAll : List Node → List Node
  | [] => []
  | n :: ns => dissolve n ++ dissolveAll ns

end

end

section

variable (n : Node)

@[simp] theorem kind_ungroup : (g.ungroup n).kind = n.kind := by cases n; rfl
@[simp] theorem field_ungroup : (g.ungroup n).field = n.field := by cases n; rfl
@[simp] theorem startByte_ungroup : (g.ungroup n).startByte = n.startByte := by cases n; rfl
@[simp] theorem endByte_ungroup : (g.ungroup n).endByte = n.endByte := by cases n; rfl
@[simp] theorem isNamed_ungroup : (g.ungroup n).isNamed = n.isNamed := by cases n; rfl
@[simp] theorem isMissing_ungroup : (g.ungroup n).isMissing = n.isMissing := by cases n; rfl
@[simp] theorem hasError_ungroup : (g.ungroup n).hasError = n.hasError := by cases n; rfl

@[simp] theorem text_ungroup : (g.ungroup n).text source = n.text source := by cases n; rfl
@[simp] theorem span_ungroup : (g.ungroup n).span source = n.span source := by cases n; rfl

end

theorem ungroupAll_eq (ns : List Node) : g.ungroupAll ns = ns.map g.ungroup := by
  induction ns with
  | nil => rfl
  | cons n ns ih => rw [ungroupAll, ih, List.map_cons]

mutual

theorem dissolve_eq_map : ∀ n : Node, g.dissolve n = (g.flatten n).map g.ungroup
  | ⟨kind, field, startByte, endByte, isNamed, isMissing, hasError, children⟩ => by
    rw [dissolve, flatten]
    split_ifs with hgroup hblock
    · exact dissolveAll_eq_map children
    · rw [List.map_singleton, ungroup, if_pos hblock]
    · rw [List.map_singleton, ungroup, if_neg hblock]

theorem dissolveAll_eq_map : ∀ ns : List Node, g.dissolveAll ns = (g.flattenAll ns).map g.ungroup
  | [] => by rw [dissolveAll, flattenAll, List.map_nil]
  | n :: ns => by
    rw [dissolveAll, flattenAll, List.map_append, dissolve_eq_map n, dissolveAll_eq_map ns]

end

theorem children_ungroup_of_block {n : Node} (h : n.kind ∈ g.blockKinds) :
    (g.ungroup n).children = (g.flattenAll n.children).map g.ungroup := by
  cases n
  rw [ungroup, if_pos (List.contains_iff_mem.mpr h), dissolveAll_eq_map]

theorem children_ungroup_of_not_block {n : Node} (h : n.kind ∉ g.blockKinds) :
    (g.ungroup n).children = n.children.map g.ungroup := by
  cases n
  rw [ungroup, if_neg (by simpa using h), ungroupAll_eq]

section

variable {n : Node} (hn : n.kind ∉ g.blockKinds)
include hn

theorem childByField_ungroup (field : String) :
    (g.ungroup n).childByField field = (n.childByField field).map g.ungroup := by
  rw [Node.childByField, children_ungroup_of_not_block hn, List.find?_map, Node.childByField]
  simp only [Function.comp_def, field_ungroup]

theorem namedChildren_ungroup :
    (g.ungroup n).namedChildren = n.namedChildren.map g.ungroup := by
  rw [Node.namedChildren, children_ungroup_of_not_block hn, List.filter_map, Node.namedChildren]
  simp only [Function.comp_def, isNamed_ungroup]

end

/-! ## Statements without containers -/

/-- What is needed of a table for grouping to leave no trace: it knows no classes, asks for nodes by
their kind alone and finds bodies in the body field; and neither blocks nor containers are asked
for, bind names, or count as expression statements. -/
structure Regroupable (g : Grammar) : Prop where
  callables : ∀ rule ∈ g.rules, rule.kind ≠ .classLike ∧ rule.name ≠ .declarator
  byKind : ∀ p ∈ g.declarations ++ g.unsupported, p = .kind p.nodeKind
  bodies : g.bodySources = []
  inert : ∀ kind ∈ g.blockKinds ++ g.containers,
    kind ∉ (g.declarations ++ g.unsupported).map (·.nodeKind) ∧ kind ∉ bindingWrappers ∧
      g.lambdaBindings.lookup kind = none ∧ kind ≠ expressionStatement

theorem regroupable_go : go.Regroupable := by
  constructor <;> decide

theorem statement?_ungroup (hg : g.Regroupable) (n : Node) :
    g.statement? source (g.ungroup n) = g.statement? source n := by
  by_cases hkind : n.kind = expressionStatement
  · have hblock : n.kind ∉ g.blockKinds := fun h =>
      (hg.inert _ (List.mem_append_left _ h)).2.2.2 hkind
    -- The children of an expression statement count by their kinds.
    simp only [statement?, soleCategory, categoryOf, kind_ungroup, isMissing_ungroup, text_ungroup,
      span_ungroup, namedChildren_ungroup hblock]
    rcases n.namedChildren with _ | ⟨inner, _ | ⟨second, rest⟩⟩
    · simp only [List.map_nil]
    · simp only [List.map_cons, List.map_nil, kind_ungroup]
    · simp only [List.map_cons, kind_ungroup]
  · have hne : ¬(n.kind == expressionStatement) = true := by simpa using hkind
    simp only [statement?, soleCategory, categoryOf, kind_ungroup, isMissing_ungroup, text_ungroup,
      span_ungroup, if_neg hne]

mutual

theorem kind_of_mem_flatten : ∀ n : Node, ∀ m ∈ g.flatten n, m.kind ∉ g.containers
  | ⟨kind, field, startByte, endByte, isNamed, isMissing, hasError, children⟩ => by
    intro m hm
    rw [flatten] at hm
    split_ifs at hm with hgroup
    · exact kind_of_mem_flattenAll children m hm
    · rw [List.mem_singleton.mp hm]
      simpa using hgroup

theorem kind_of_mem_flattenAll : ∀ ns : List Node, ∀ m ∈ g.flattenAll ns, m.kind ∉ g.containers
  | [] => by
    intro m hm
    cases hm
  | n :: ns => by
    intro m hm
    rw [flattenAll, List.mem_append] at hm
    exact hm.elim (kind_of_mem_flatten n m) (kind_of_mem_flattenAll ns m)

end

theorem flattenAll_eq_self {ns : List Node} (h : ∀ n ∈ ns, n.kind ∉ g.containers) :
    g.flattenAll ns = ns := by
  induction ns with
  | nil => rw [flattenAll]
  | cons n ns ih =>
    rw [List.forall_mem_cons] at h
    rw [flattenAll, flatten_of_not_container h.1, ih h.2, List.singleton_append]

/-- A block has the same statements without its containers. -/
theorem statementsOfAll_ungroup (hg : g.Regroupable) {b : Node} (hb : b.kind ∈ g.blockKinds) :
    g.statementsOfAll source (g.ungroup b).children = g.statementsOfAll source b.children := by
  have hflat : g.flattenAll ((g.flattenAll b.children).map g.ungroup) =
      (g.flattenAll b.children).map g.ungroup := by
    refine flattenAll_eq_self fun n hn => ?_
    obtain ⟨m, hm, rfl⟩ := List.mem_map.mp hn
    rw [kind_ungroup]
    exact kind_of_mem_flattenAll _ m hm
  rw [statementsOfAll_eq, statementsOfAll_eq, children_ungroup_of_block hb, hflat,
    List.filterMap_map]
  exact List.filterMap_congr fun n _ => statement?_ungroup hg n

theorem body_ungroup (hg : g.Regroupable) {n : Node} (hn : n.kind ∉ g.blockKinds) :
    g.body source (g.ungroup n) = g.body source n := by
  have hfield : ∀ m, g.bodyNode m = m.childByField g.bodyField := by
    intro m
    rw [bodyNode, hg.bodies]
    rfl
  rw [body, body, hfield, hfield, childByField_ungroup hn, Option.map_map]
  refine Option.map_congr fun b _ => ?_
  simp only [Function.comp_apply, kind_ungroup, span_ungroup]
  by_cases hblock : b.kind ∈ g.blockKinds
  · rw [statementsOfAll_ungroup hg hblock]
  · simp [hblock]

/-! ## Names without containers -/

/-- What an expression is bound to that begins at an offset, the nodes around it nearest first. -/
def boundTo (bindings : List (String × String)) : Nat → List Node → Option Node
  | _, [] => none
  | start, parent :: above =>
    if bindingWrappers.contains parent.kind then boundTo bindings parent.startByte above
    else ((bindings.lookup parent.kind).bind parent.childByField).filter fun target =>
      decide (target.endByte ≤ start)

theorem bindingTarget_eq (bindings : List (String × String)) (s : Site) :
    s.bindingTarget bindings =
      boundTo bindings s.node.startByte (s.ancestors.map (·.2)) := by
  obtain ⟨number, bound, ancestors⟩ := s
  simp only [Site.bindingTarget]
  induction ancestors.map (·.2) generalizing bound with
  | nil => rfl
  | cons parent above ih =>
    rw [boundTo, List.takeWhile_cons]
    split_ifs with hwrapper
    · simpa [List.getLast?_cons] using ih parent
    · rfl

/-- Two lists of ancestors bind the same, but for containers. -/
def BindAlike (g : Grammar) (above above' : List (Nat × Node)) : Prop :=
  ∀ start, boundTo g.lambdaBindings start (above'.map (·.2)) =
    (boundTo g.lambdaBindings start (above.map (·.2))).map g.ungroup

/-- Nothing is bound below these ancestors. -/
def BindNothing (g : Grammar) (above : List (Nat × Node)) : Prop :=
  ∀ start, boundTo g.lambdaBindings start (above.map (·.2)) = none

section

variable {above above' : List (Nat × Node)}

theorem BindNothing.bindAlike (h : g.BindNothing above) (h' : g.BindNothing above') :
    g.BindAlike above above' := by
  intro start
  rw [h, h', Option.map_none]

theorem bindNothing_cons (hg : g.Regroupable) {n : Node}
    (hn : n.kind ∈ g.blockKinds ++ g.containers) (number : Nat) (above : List (Nat × Node)) :
    g.BindNothing ((number, n) :: above) := by
  intro start
  obtain ⟨_, hwrapper, hlookup, _⟩ := hg.inert n.kind hn
  rw [List.map_cons, boundTo, if_neg (by simpa using hwrapper), hlookup]
  rfl

theorem BindAlike.cons {n : Node} (hn : n.kind ∉ g.blockKinds) (h : g.BindAlike above above')
    (number number' : Nat) :
    g.BindAlike ((number, n) :: above) ((number', g.ungroup n) :: above') := by
  intro start
  rw [List.map_cons, List.map_cons, boundTo, boundTo]
  simp only [kind_ungroup, startByte_ungroup]
  split_ifs with hwrapper
  · exact h n.startByte
  · cases g.lambdaBindings.lookup n.kind with
    | none => rfl
    | some field =>
      simp only [Option.bind_some, childByField_ungroup hn]
      cases n.childByField field with
      | none => rfl
      | some target => simp [Option.filter_some]

end

end Grammar

/-! ## Candidates without containers -/

/-- A candidate is there again in the tree without containers. -/
structure Candidate.Alike (g : Grammar) (c d : Candidate) : Prop where
  isDeclaration : d.isDeclaration = c.isDeclaration
  node : d.site.node = g.ungroup c.site.node
  kind : c.site.node.kind ∉ g.blockKinds
  above : g.BindAlike c.site.ancestors d.site.ancestors

namespace Grammar

variable {g : Grammar} {source : Source}

/-- The sites have the same candidates, one after the other. -/
def SameCandidates (g : Grammar) (ss ts : List Site) : Prop :=
  List.Forall₂ (Candidate.Alike g) (ss.filterMap g.candidate?) (ts.filterMap g.candidate?)

theorem kind_of_candidate? (hg : g.Regroupable) {s : Site} {c : Candidate}
    (h : g.candidate? s = some c) : s.node.kind ∉ g.blockKinds ++ g.containers := by
  intro hkind
  have hasked : ∃ p ∈ g.declarations ++ g.unsupported, p.matches s = true := by
    unfold candidate? declares at h
    split_ifs at h with hdeclared hrefused
    · obtain ⟨p, hp, hs⟩ := List.any_eq_true.mp hdeclared
      exact ⟨p, List.mem_append_left _ hp, hs⟩
    · obtain ⟨p, hp, hs⟩ := List.any_eq_true.mp hrefused
      exact ⟨p, List.mem_append_right _ hp, hs⟩
  obtain ⟨p, hp, hs⟩ := hasked
  refine (hg.inert _ hkind).1 ?_
  rw [p.kind_of_matches hs]
  exact List.mem_map_of_mem hp

theorem any_matches_ungroup (hg : g.Regroupable) {ps : List Pattern}
    (hps : ps ⊆ g.declarations ++ g.unsupported) {s t : Site} (hnode : t.node = g.ungroup s.node) :
    (ps.any fun p => p.matches t) = ps.any fun p => p.matches s := by
  rw [Bool.eq_iff_iff, List.any_eq_true, List.any_eq_true]
  refine exists_congr fun p => and_congr_right fun hp => ?_
  rw [hg.byKind p (hps hp)]
  simp only [Pattern.matches, hnode, isNamed_ungroup, kind_ungroup]

theorem candidate?_ungroup (hg : g.Regroupable) {s t : Site} (hnode : t.node = g.ungroup s.node) :
    g.candidate? t = (g.candidate? s).map fun c => ⟨t, c.isDeclaration⟩ := by
  unfold candidate? declares
  rw [any_matches_ungroup hg (List.subset_append_left _ _) hnode,
    any_matches_ungroup hg (List.subset_append_right _ _) hnode]
  split_ifs <;> rfl

namespace SameCandidates

variable {ss ts ss' ts' : List Site}

theorem nil : g.SameCandidates [] [] := List.Forall₂.nil

theorem append (h : g.SameCandidates ss ts) (h' : g.SameCandidates ss' ts') :
    g.SameCandidates (ss ++ ss') (ts ++ ts') := by
  unfold SameCandidates
  rw [List.filterMap_append, List.filterMap_append]
  exact List.rel_append h h'

theorem cons (hg : g.Regroupable) {s t : Site} (hnode : t.node = g.ungroup s.node)
    (habove : g.BindAlike s.ancestors t.ancestors) (h : g.SameCandidates ss ts) :
    g.SameCandidates (s :: ss) (t :: ts) := by
  unfold SameCandidates
  rw [List.filterMap_cons, List.filterMap_cons, candidate?_ungroup hg hnode]
  cases hc : g.candidate? s with
  | none => exact h
  | some c =>
    obtain rfl := g.site_of_candidate? hc
    have hkind := fun hblock => kind_of_candidate? hg hc (List.mem_append_left _ hblock)
    exact .cons ⟨rfl, hnode, hkind, habove⟩ h

theorem skip (hg : g.Regroupable) {s : Site} (hs : s.node.kind ∈ g.containers)
    (h : g.SameCandidates ss ts) : g.SameCandidates (s :: ss) ts := by
  have hnone : g.candidate? s = none := by
    cases hc : g.candidate? s with
    | none => rfl
    | some c => exact absurd (List.mem_append_right _ hs) (kind_of_candidate? hg hc)
  unfold SameCandidates
  rw [List.filterMap_cons, hnone]
  exact h

end SameCandidates

theorem sitesFromAll_append (number : Nat) (above : List (Nat × Node)) (ns ms : List Node) :
    Node.sitesFromAll number above (ns ++ ms) =
      Node.sitesFromAll number above ns ++
        Node.sitesFromAll (number + Node.sizeAll ns) above ms := by
  induction ns generalizing number with
  | nil => simp [Node.sitesFromAll, Node.sizeAll]
  | cons n ns ih =>
    rw [List.cons_append, Node.sitesFromAll, Node.sitesFromAll, Node.sizeAll, ih,
      List.append_assoc, Nat.add_assoc]

/-- The candidates of a tree, below any ancestors, are there again without containers; and those of
a child of a block are there again in what takes its place. -/
structure KeepsCandidates (g : Grammar) (n : Node) : Prop where
  ungroup : ∀ (number number' : Nat) {above above' : List (Nat × Node)}, g.BindAlike above above' →
    g.SameCandidates (n.sitesFrom number above) ((g.ungroup n).sitesFrom number' above')
  dissolve : ∀ (number number' : Nat) {above above' : List (Nat × Node)}, g.BindNothing above →
    g.BindNothing above' →
    g.SameCandidates (n.sitesFrom number above) (Node.sitesFromAll number' above' (g.dissolve n))

section

variable {ns : List Node} (h : ∀ n ∈ ns, g.KeepsCandidates n) (number number' : Nat)
  {above above' : List (Nat × Node)}
include h

theorem sameCandidates_ungroupAll (habove : g.BindAlike above above') :
    g.SameCandidates (Node.sitesFromAll number above ns)
      (Node.sitesFromAll number' above' (g.ungroupAll ns)) := by
  induction ns generalizing number number' with
  | nil => exact .nil
  | cons n ns ih =>
    rw [List.forall_mem_cons] at h
    rw [ungroupAll, Node.sitesFromAll, Node.sitesFromAll]
    exact (h.1.ungroup number number' habove).append (ih h.2 _ _)

theorem sameCandidates_dissolveAll (habove : g.BindNothing above) (habove' : g.BindNothing above') :
    g.SameCandidates (Node.sitesFromAll number above ns)
      (Node.sitesFromAll number' above' (g.dissolveAll ns)) := by
  induction ns generalizing number number' with
  | nil => exact .nil
  | cons n ns ih =>
    rw [List.forall_mem_cons] at h
    rw [dissolveAll, Node.sitesFromAll, sitesFromAll_append]
    exact (h.1.dissolve number number' habove habove').append (ih h.2 _ _)

end

theorem keepsCandidates (hg : g.Regroupable) (n : Node) : g.KeepsCandidates n := by
  induction n using Node.induction with
  | step n ih =>
    -- What is not a container stays in place; then both parts are the same.
    have hungroup : ∀ (number number' : Nat) {above above' : List (Nat × Node)},
        g.BindAlike above above' →
        g.SameCandidates (n.sitesFrom number above) ((g.ungroup n).sitesFrom number' above') := by
      intro number number' above above' habove
      rw [Node.sitesFrom_eq, Node.sitesFrom_eq]
      refine SameCandidates.cons hg rfl habove ?_
      by_cases hblock : n.kind ∈ g.blockKinds
      · rw [children_ungroup_of_block hblock, ← dissolveAll_eq_map]
        have hkind := List.mem_append_left g.containers hblock
        refine sameCandidates_dissolveAll ih _ _ (bindNothing_cons hg hkind _ _) ?_
        exact bindNothing_cons hg (by rwa [kind_ungroup]) _ _
      · rw [children_ungroup_of_not_block hblock, ← ungroupAll_eq]
        exact sameCandidates_ungroupAll ih _ _ (habove.cons hblock _ _)
    refine ⟨hungroup, fun number number' above above' habove habove' => ?_⟩
    by_cases hgroup : n.kind ∈ g.containers
    · rw [dissolve_eq_map, flatten_of_container hgroup, ← dissolveAll_eq_map, Node.sitesFrom_eq]
      refine SameCandidates.skip hg hgroup ?_
      exact sameCandidates_dissolveAll ih _ _
        (bindNothing_cons hg (List.mem_append_right _ hgroup) _ _) habove'
    · rw [dissolve_eq_map, flatten_of_not_container hgroup, List.map_singleton, Node.sitesFromAll,
        Node.sitesFromAll, List.append_nil]
      exact hungroup _ _ (habove.bindAlike habove')

theorem forall₂_mergeSort {α β : Type} {R : α → β → Prop} {le : α → α → Bool} {le' : β → β → Bool}
    (hle : ∀ {a b c d}, R a b → R c d → le a c = le' b d) {l : List α} {l' : List β}
    (h : List.Forall₂ R l l') : List.Forall₂ R (l.mergeSort le) (l'.mergeSort le') := by
  obtain ⟨hlength, hpairs⟩ := List.forall₂_iff_zip.mp h
  -- Both lists are sorted at once, as pairs.
  have hfst : ((l.zip l').mergeSort fun x y => le x.1 y.1).map (·.1) = l.mergeSort le := by
    rw [List.map_mergeSort (s := le) fun _ _ _ _ => rfl, List.map_fst_zip (Nat.le_of_eq hlength)]
  have hsnd : ((l.zip l').mergeSort fun x y => le x.1 y.1).map (·.2) = l'.mergeSort le' := by
    rw [List.map_mergeSort (s := le') fun x hx y hy => hle (hpairs hx) (hpairs hy),
      List.map_snd_zip (Nat.le_of_eq hlength.symm)]
  rw [← hfst, ← hsnd, List.forall₂_map_left_iff, List.forall₂_map_right_iff, List.forall₂_same]
  exact fun x hx => hpairs ((List.mergeSort_perm _ _).subset hx)

/-- **The candidates of a tree**, in order, are there again in the tree without containers. -/
theorem candidates_ungroup (hg : g.Regroupable) (root : Node) :
    List.Forall₂ (Candidate.Alike g) (g.candidates root) (g.candidates (g.ungroup root)) := by
  refine forall₂_mergeSort (fun {a b c d} hab hcd => ?_)
    ((keepsCandidates hg root).ungroup 0 0 fun _ => rfl)
  simp only [Candidate.precedes, hab.node, hcd.node, startByte_ungroup, endByte_ungroup]

end Grammar

end Hollow
