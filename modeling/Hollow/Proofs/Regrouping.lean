import Hollow.Proofs.Content
import Mathlib.Logic.Relation

/-!
# Regrouping the children of a block

Inside a block, containers group statements and are nothing themselves.  So the statements of a
block are those of its children with the containers dissolved, and it makes no difference how the
children are grouped.

* `Grammar.StandsFor` — a statement has the category, the kind and the span of a node.
* `statements_stand_for` — a block has one statement for each of its flattened children that is not
  punctuation, in order.
* `Grammar.Regroups` — children are put into containers and taken out of them;
  `regroups_iff`: this leads exactly to the children that flatten alike.
-/

namespace Hollow

namespace Grammar

variable {g : Grammar} {source : Source}

/-! ## One statement for each node -/

/-- A statement stands for a node: it has the category, the kind and the span of the node. -/
structure StandsFor (g : Grammar) (source : Source) (n : Node) (st : Statement) : Prop where
  category : (g.soleCategory n).or (g.categoryOf source n) = some st.category
  kind : st.nodeKind = n.kind
  span : st.span = n.span source

theorem standsFor_of_statement? {n : Node} {st : Statement} (h : g.statement? source n = some st) :
    g.StandsFor source n st := by
  obtain ⟨category, hcategory, rfl⟩ := Option.map_eq_some_iff.mp h
  exact ⟨hcategory, rfl, rfl⟩

/-- Exactly the punctuation of the table is no statement. -/
theorem isSome_statement? (hg : g.TellsCode) (n : Node) :
    (g.statement? source n).isSome = !g.delimiters.contains n.kind := by
  rw [statement?, Option.isSome_map, Option.isSome_or]
  by_cases hkind : n.kind ∈ g.delimiters
  · have hne : ¬(n.kind == expressionStatement) = true := by
      intro h
      exact (hg.2 _ List.mem_cons_self).1 (beq_iff_eq.mp h ▸ hkind)
    have hcontains : g.delimiters.contains n.kind = true := List.contains_iff_mem.mpr hkind
    rw [soleCategory, if_neg hne, categoryOf, if_pos hcontains, hcontains]
    rfl
  · have hcategory : (g.categoryOf source n).isSome = true := by
      unfold categoryOf
      rw [if_neg (by simpa using hkind)]
      split_ifs
      · rfl
      · rfl
      · rfl
      · rfl
      · rfl
      · split
        · rfl
        · split_ifs <;> rfl
      · rfl
      · rfl
    rw [hcategory, Bool.or_true]
    simpa using hkind

theorem forall₂_filterMap {α β : Type} {f : α → Option β} (l : List α) :
    List.Forall₂ (fun a b => f a = some b) (l.filter fun a => (f a).isSome) (l.filterMap f) := by
  induction l with
  | nil => exact .nil
  | cons a l ih =>
    rw [List.filter_cons, List.filterMap_cons]
    cases hfa : f a with
    | none => simpa using ih
    | some b => exact .cons hfa ih

/-- **The statements of a block** are those of its children with containers dissolved, in order, one
for each that is not punctuation. -/
theorem statements_stand_for (hg : g.TellsCode) (source : Source) (ns : List Node) :
    List.Forall₂ (g.StandsFor source)
      ((g.flattenAll ns).filter fun n => !g.delimiters.contains n.kind)
      (g.statementsOfAll source ns) := by
  rw [statementsOfAll_eq]
  have hkept : ((g.flattenAll ns).filter fun n => !g.delimiters.contains n.kind) =
      (g.flattenAll ns).filter fun n => (g.statement? source n).isSome :=
    List.filter_congr fun n _ => (isSome_statement? hg n).symm
  rw [hkept]
  exact (forall₂_filterMap (f := g.statement? source) _).imp fun _ _ => standsFor_of_statement?

/-! ## Regrouping children -/

/-- A run of children is put into a container of its own. -/
inductive Wraps (g : Grammar) : List Node → List Node → Prop
  | wrap (front back : List Node) {group : Node} : group.kind ∈ g.containers →
      Wraps g (front ++ group.children ++ back) (front ++ group :: back)

/-- Runs of children are put into containers, and containers are dissolved, any number of times. -/
def Regroups (g : Grammar) : List Node → List Node → Prop := Relation.EqvGen g.Wraps

theorem flattenAll_append (ns ms : List Node) :
    g.flattenAll (ns ++ ms) = g.flattenAll ns ++ g.flattenAll ms := by
  induction ns with
  | nil => rw [flattenAll]; rfl
  | cons n ns ih => rw [List.cons_append, flattenAll, flattenAll, ih, List.append_assoc]

theorem flatten_of_container {n : Node} (h : n.kind ∈ g.containers) :
    g.flatten n = g.flattenAll n.children := by
  obtain ⟨kind, field, startByte, endByte, isNamed, isMissing, hasError, children⟩ := n
  rw [flatten, if_pos (List.contains_iff_mem.mpr h)]

theorem flatten_of_not_container {n : Node} (h : n.kind ∉ g.containers) : g.flatten n = [n] := by
  obtain ⟨kind, field, startByte, endByte, isNamed, isMissing, hasError, children⟩ := n
  rw [flatten, if_neg (by simpa using h)]

theorem Wraps.flattenAll_eq {ns ms : List Node} (h : g.Wraps ns ms) :
    g.flattenAll ns = g.flattenAll ms := by
  obtain ⟨front, back, hgroup⟩ := h
  rw [flattenAll_append, flattenAll_append, flattenAll_append, flattenAll,
    flatten_of_container hgroup, List.append_assoc]

theorem Regroups.flattenAll_eq {ns ms : List Node} (h : g.Regroups ns ms) :
    g.flattenAll ns = g.flattenAll ms := by
  induction h with
  | rel _ _ h => exact h.flattenAll_eq
  | refl => rfl
  | symm _ _ _ ih => exact ih.symm
  | trans _ _ _ _ _ ih ih' => exact ih.trans ih'

mutual

theorem regroups_flatten : ∀ (n : Node) (front back : List Node),
    g.Regroups (front ++ n :: back) (front ++ g.flatten n ++ back)
  | ⟨kind, field, startByte, endByte, isNamed, isMissing, hasError, children⟩ => by
    intro front back
    rw [flatten]
    split_ifs with hgroup
    · exact .trans _ _ _ (.symm _ _ (.rel _ _ (.wrap front back (List.contains_iff_mem.mp hgroup))))
        (regroups_flattenAll children front back)
    · rw [List.append_assoc]
      exact .refl _

/-- Containers can be dissolved wherever they stand. -/
theorem regroups_flattenAll : ∀ (ns front back : List Node),
    g.Regroups (front ++ ns ++ back) (front ++ g.flattenAll ns ++ back)
  | [] => by
    intro front back
    rw [flattenAll]
    exact .refl _
  | n :: ns => by
    intro front back
    have hhead := regroups_flatten n front (ns ++ back)
    have htail := regroups_flattenAll ns (front ++ g.flatten n) back
    rw [flattenAll]
    simp only [List.append_assoc, List.cons_append] at hhead htail ⊢
    exact .trans _ _ _ hhead htail

end

/-- Children can be regrouped into each other exactly if they are the same without containers. -/
theorem regroups_iff {ns ms : List Node} :
    g.Regroups ns ms ↔ g.flattenAll ns = g.flattenAll ms := by
  constructor
  · exact Regroups.flattenAll_eq
  · intro h
    have hns := regroups_flattenAll (g := g) ns [] []
    have hms := regroups_flattenAll (g := g) ms [] []
    simp only [List.nil_append, List.append_nil] at hns hms
    exact .trans _ _ _ (h ▸ hns) (.symm _ _ hms)

end Grammar

end Hollow
