import Hollow.Proofs.SpanNesting
import Mathlib.Logic.Relation

/-!
# Names at the end of declarators

The name of a function is found at the end of a chain of declarators.  A declarator names the next
node of the chain in a field, or else holds it as its first named child.  Comments are named nodes
too, so one that stands in front of a declarator without a field ends the chain, and its text
becomes the name.

* `Node.nextDeclarator` — one step of the chain; `Node.Reaches` — any number of steps;
* `Node.declaratorEnd_eq`, `Node.reaches_declaratorEnd` — the search takes such steps until there is
  none left;
* `Node.CommentInFront` — where a comment ends the chain;
* `comment_is_name_iff`, `comment_becomes_name` — the result, and a function named by a comment.
-/

namespace Hollow

namespace Node

/-! ## Chains of declarators -/

theorem mem_field_of_childByField {n m : Node} {field : String}
    (h : n.childByField field = some m) : m ∈ n.children ∧ m.field = some field := by
  have hfield := List.find?_some h
  exact ⟨List.mem_of_find?_eq_some h, by simpa using hfield⟩

/-- The next node of a chain of declarators. -/
def nextDeclarator (n : Node) : Option Node :=
  (n.childByField "declarator").or
    (if isDeclaratorKind n.kind then n.namedChildren.head? else none)

/-- Any number of steps along a chain of declarators. -/
def Reaches : Node → Node → Prop :=
  Relation.ReflTransGen fun n m => n.nextDeclarator = some m

theorem declaratorInField_eq (ns : List Node) :
    declaratorInField ns = (ns.find? (·.field == some "declarator")).map declaratorEnd := by
  induction ns with
  | nil => rfl
  | cons n ns ih =>
    rw [declaratorInField, List.find?_cons]
    cases n.field == some "declarator" with
    | true => rfl
    | false => simpa using ih

theorem declaratorInNamed_eq (ns : List Node) :
    declaratorInNamed ns = (ns.filter (·.isNamed)).head?.map declaratorEnd := by
  induction ns with
  | nil => rfl
  | cons n ns ih =>
    rw [declaratorInNamed, List.filter_cons]
    split_ifs
    · rfl
    · exact ih

/-- **One step of the search.** -/
theorem declaratorEnd_eq (n : Node) :
    n.declaratorEnd = (n.nextDeclarator.map declaratorEnd).getD n := by
  obtain ⟨kind, field, startByte, endByte, isNamed, isMissing, hasError, children⟩ := n
  rw [declaratorEnd, declaratorInField_eq, declaratorInNamed_eq, nextDeclarator, childByField,
    namedChildren]
  cases children.find? (·.field == some "declarator") with
  | some m => rfl
  | none =>
    simp only [Option.map_none, Option.none_or]
    split_ifs
    · rfl
    · rfl

section

variable {n m : Node}

theorem declaratorEnd_of_next (h : n.nextDeclarator = some m) :
    n.declaratorEnd = m.declaratorEnd := by
  rw [declaratorEnd_eq, h]
  rfl

theorem declaratorEnd_of_last (h : n.nextDeclarator = none) : n.declaratorEnd = n := by
  rw [declaratorEnd_eq, h]
  rfl

theorem mem_children_of_next (h : n.nextDeclarator = some m) : m ∈ n.children := by
  rcases Option.or_eq_some_iff.mp h with h | ⟨_, h⟩
  · exact (mem_field_of_childByField h).1
  · split_ifs at h
    exact List.mem_of_mem_filter (List.mem_of_mem_head? h)

/-- The search goes along the chain to its end. -/
theorem reaches_declaratorEnd (n : Node) :
    n.Reaches n.declaratorEnd ∧ n.declaratorEnd.nextDeclarator = none := by
  induction n using Node.induction with
  | step n ih =>
    cases hnext : n.nextDeclarator with
    | none =>
      rw [declaratorEnd_of_last hnext]
      exact ⟨.refl, hnext⟩
    | some m =>
      obtain ⟨hreaches, hlast⟩ := ih m (mem_children_of_next hnext)
      rw [declaratorEnd_of_next hnext]
      exact ⟨.head hnext hreaches, hlast⟩

/-- A chain has one end. -/
theorem Reaches.eq_declaratorEnd (h : n.Reaches m) (hlast : m.nextDeclarator = none) :
    m = n.declaratorEnd := by
  induction h using Relation.ReflTransGen.head_induction_on with
  | refl => exact (declaratorEnd_of_last hlast).symm
  | head hnext _ ih => rw [declaratorEnd_of_next hnext, ih]

theorem Has.reaches {root : Node} (h : root.Has n) (hreaches : n.Reaches m) : root.Has m := by
  induction hreaches with
  | refl => exact h
  | tail _ hnext ih => exact ih.child (mem_children_of_next hnext)

end

/-! ## Comments -/

/-- The kind of comments. -/
def commentKind : String := "comment"

/-- A declarator that names no next node in a field, and has a comment as its first named child.
Nothing goes on from the comment. -/
def CommentInFront (n : Node) : Prop :=
  n.childByField "declarator" = none ∧ isDeclaratorKind n.kind = true ∧
    ∃ c, n.namedChildren.head? = some c ∧ c.kind = commentKind ∧
      c.childByField "declarator" = none

/-- A comment fills no field. -/
def CommentFillsNoField (n : Node) : Prop := n.kind = commentKind → n.field = none

instance : DecidablePred CommentFillsNoField := fun n =>
  inferInstanceAs (Decidable (n.kind = commentKind → n.field = none))

variable {root n m : Node}

/-- A comment that is reached by a step has been reached from behind. -/
theorem commentInFront_of_next (hcomments : root.Everywhere CommentFillsNoField) (hn : root.Has n)
    (hnext : n.nextDeclarator = some m) (hlast : m.nextDeclarator = none)
    (hkind : m.kind = commentKind) : n.CommentInFront := by
  have hfield : m.field = none := hcomments.at (hn.child (mem_children_of_next hnext)) hkind
  rcases Option.or_eq_some_iff.mp hnext with h | ⟨hnone, h⟩
  · rw [(mem_field_of_childByField h).2] at hfield
    cases hfield
  · split_ifs at h with hdeclarator
    exact ⟨hnone, hdeclarator, m, h, hkind, (Option.or_eq_none_iff.mp hlast).1⟩

/-- **A comment is at the end** exactly if one stands in front on the way there. -/
theorem kind_declaratorEnd_iff (hcomments : root.Everywhere CommentFillsNoField)
    (hn : root.Has n) (hfield : n.field = some "declarator") :
    n.declaratorEnd.kind = commentKind ↔ ∃ d, n.Reaches d ∧ d.CommentInFront := by
  obtain ⟨hreaches, hlast⟩ := reaches_declaratorEnd n
  constructor
  · intro hkind
    rcases Relation.ReflTransGen.cases_tail hreaches with hself | ⟨d, hd, hnext⟩
    · -- The chain begins in a field, so that it does not begin with a comment.
      rw [hself] at hkind
      rw [hcomments.at hn hkind] at hfield
      cases hfield
    · exact ⟨d, hd, commentInFront_of_next hcomments (hn.reaches hd) hnext hlast hkind⟩
  · rintro ⟨d, hd, hnone, hdeclarator, c, hc, hkind, hleaf⟩
    have hnext : d.nextDeclarator = some c := by
      rw [nextDeclarator, hnone, Option.none_or, if_pos hdeclarator, hc]
    have hend : c.nextDeclarator = none := by
      have hcomment : ¬isDeclaratorKind c.kind = true := by
        rw [hkind]
        decide
      rw [nextDeclarator, hleaf, Option.none_or, if_neg hcomment]
    rw [← Reaches.eq_declaratorEnd (hd.tail hnext) hend, hkind]

end Node

namespace Grammar

/-! ## Names -/

/-- **A comment becomes the name exactly if it stands in front of a declarator without a field.**
For every grammar, source and tree in which comments fill no field, and every declaration that is
named by a chain of declarators: without a declarator it has no name; else the search ends at the
end of the chain, the text there is the name unless it is empty, and the node there is a comment if
and only if the chain comes by a declarator with a comment in front. -/
theorem comment_is_name_iff (g : Grammar) (source : Source) {root : Node}
    (hcomments : root.Everywhere Node.CommentFillsNoField) {s : Site} (hs : s ∈ root.sites)
    {rule : Rule} (hrule : g.rule? s = some rule) (hname : rule.name = .declarator) :
    ∃ d, g.declarationAt source root s = some d ∧
      (s.node.childByField "declarator" = none → d.name = none) ∧
      ∀ first, s.node.childByField "declarator" = some first →
        ∃ last, g.nameNode s rule.name = some last ∧
          d.name = (some (last.text source)).filter (· != "") ∧
          first.Reaches last ∧ last.nextDeclarator = none ∧
          (last.kind = Node.commentKind ↔ ∃ m, first.Reaches m ∧ m.CommentInFront) := by
  obtain ⟨placed, new, hplacements⟩ := exists_place_of_rule? source hs hrule
  have hnamed : ((g.place source placed s rule).filled (g.placements source root)).name =
      g.declarationName source s rule.name := rfl
  refine ⟨_, declarationAt_of_place hplacements, fun hnone => ?_, fun first hfirst => ?_⟩
  · rw [hnamed, hname, declarationName, nameNode, hnone]
    rfl
  · have hnode : g.nameNode s rule.name = some first.declaratorEnd := by
      rw [hname, nameNode, hfirst, Option.map_some]
    obtain ⟨hmem, hfield⟩ := Node.mem_field_of_childByField hfirst
    have hhas : root.Has first := Node.Has.child ⟨s, hs, rfl⟩ hmem
    obtain ⟨hreaches, hlast⟩ := first.reaches_declaratorEnd
    refine ⟨first.declaratorEnd, hnode, ?_, hreaches, hlast,
      Node.kind_declaratorEnd_iff hcomments hhas hfield⟩
    rw [hnamed, declarationName, hnode, Option.map_some]

/-- The tree of a function whose name stands in brackets, given what is between them. -/
def bracketTree (inner : List Node) : Node :=
  .named none "translation_unit" 0 24 [.named none "function_definition" 0 24
    [.named "type" "primitive_type" 0 3 [],
      .named "declarator" "function_declarator" 4 21
        [.named "declarator" "parenthesized_declarator" 4 15
          (.token "(" 4 5 :: inner ++ [.token ")" 14 15]),
          .named "parameters" "parameter_list" 15 21
            [.token "(" 15 16, .named none "parameter_declaration" 16 20
              [.named "type" "primitive_type" 16 20 []], .token ")" 20 21]],
      .named "body" "compound_statement" 22 24 [.token "\x7b" 22 23, .token "\x7d" 23 24]]]

/-- A function with a comment behind its name. -/
def commentBehindSource : Source := Utf8.encode "int (f /* c */)(void) \x7b\x7d"

/-- Its tree. -/
def commentBehindTree : Node :=
  bracketTree [.named none "identifier" 5 6 [], .named none "comment" 7 14 []]

theorem commentBehind_keeps_name :
    ∃ s ∈ commentBehindTree.sites, ∃ d,
      c.declarationAt commentBehindSource commentBehindTree s = some d ∧ d.name = some "f" ∧
      ∃ first, s.node.childByField "declarator" = some first ∧
        ¬∃ m, first.Reaches m ∧ m.CommentInFront := by
  obtain ⟨s, hs, rule, hrule, hname, first, hfirst, last, hlast, hkind, htext⟩ :
      ∃ s ∈ commentBehindTree.sites, ∃ rule, c.rule? s = some rule ∧ rule.name = .declarator ∧
        ∃ first, s.node.childByField "declarator" = some first ∧
        ∃ last, c.nameNode s rule.name = some last ∧ last.kind ≠ Node.commentKind ∧
          last.text commentBehindSource = "f" := by
    decide
  obtain ⟨d, hd, _, hchain⟩ :=
    comment_is_name_iff c commentBehindSource (by decide) hs hrule hname
  obtain ⟨node, hnode, hdname, _, _, hcomment⟩ := hchain first hfirst
  obtain rfl := Option.some.inj (hlast.symm.trans hnode)
  refine ⟨s, hs, d, hd, ?_, first, hfirst, hcomment.not.mp hkind⟩
  rw [hdname, htext]
  rfl

/-- A function with a comment in front of its name. -/
def commentInFrontSource : Source := Utf8.encode "int (/* c */ f)(void) \x7b\x7d"

/-- Its tree. -/
def commentInFrontTree : Node :=
  bracketTree [.named none "comment" 5 12 [], .named none "identifier" 13 14 []]

/-- The comment in front becomes the name. -/
theorem comment_becomes_name :
    commentInFrontTree.Everywhere Node.CommentFillsNoField ∧
      (∃ s ∈ commentInFrontTree.sites, ∃ rule, c.rule? s = some rule ∧ rule.name = .declarator ∧
        ∃ n, c.nameNode s rule.name = some n ∧ n.kind = Node.commentKind) ∧
      ∃ unit, c.canonicalize "c" .skip "main.c" commentInFrontSource commentInFrontTree = .ok unit ∧
        unit.declarations.map (·.name) = [some "/* c */"] := by
  refine ⟨by decide, by decide, ?_⟩
  have hcandidates : c.candidates commentInFrontTree = _ := candidates_of_pairwise (by decide)
  simp only [canonicalize, hcandidates]
  exact ⟨_, rfl, rfl⟩

end Grammar

end Hollow
