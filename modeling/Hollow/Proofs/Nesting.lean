import Hollow.Language
import Hollow.Proofs.Membership

/-!
# Members and kinds

A declaration is a member of the nearest class above it, and its kind depends on the declaration
directly above it.  Both are looked up while the sequence of declarations is still growing; they
are what a look at the finished unit shows, because everything above a node is placed before it.

* `exists_place_in_view` — a search made while placing gives what it would give at the end.
* `enclosingClass`, `directClassName` — the nearest class above a site, and the name of the class
  directly around it, both in terms of the finished unit.
* `NestingRule` — who is a member of whom, and which kinds follow; `nestingRule_of_canonicalize`.
* `refineKind_of_settled`, `refineKind_inside`, `refineKind_outside` — what becomes of the kind
  that a rule gives.
* `placements_withoutUnsupported` — a table that asks for no unsupported constructs leads to the
  same declarations.
* `members_and_kinds` — all this for the built-in languages.
-/

namespace Hollow

/-! ## Searches at the end -/

theorem findSome?_filter_eq_bind {α β : Type} (l : List α) (f : α → Option β) (ok : β → Bool) :
    (l.findSome? fun a => (f a).filter ok) = (l.find? fun a => (f a).any ok).bind f := by
  induction l with
  | nil => rfl
  | cons a l ih =>
    rw [List.findSome?_cons, List.find?_cons, ih]
    cases h : f a with
    | none => simp
    | some b => cases hb : ok b <;> simp [Option.filter, hb, h]

/-- The search among the ancestors goes through the sites above. -/
theorem Site.nearest_eq_findSome? {ps : List Placed} (hnodup : (ps.map (·.number)).Nodup) (s : Site)
    (ok : Placed → Bool) :
    s.nearest ps ok = s.above.findSome? fun t => (placedAt ps t.number).filter ok := by
  obtain ⟨number, node, ancestors⟩ := s
  simp only [Site.nearest, Site.above]
  induction ancestors with
  | nil => rfl
  | cons a rest ih =>
    rw [List.findSome?_cons, Site.chain, List.findSome?_cons, find?_number_and hnodup, ih]

namespace Grammar

variable {g : Grammar} {source : Source} {root : Node}

/-- **Everything above a node is placed before it**, so that a search made while placing gives what
it would give at the end. -/
theorem exists_place_in_view (source : Source) (hroot : root.Everywhere Node.HoldsChildren)
    {s : Site} {rule : Rule} (hs : s ∈ root.sites) (hrule : g.rule? s = some rule) :
    ∃ placed new, g.placements source root = placed ++ g.place source placed s rule :: new ∧
      ∀ ok, s.nearest (g.placements source root) ok = s.nearest placed ok := by
  obtain ⟨c, hc, rfl, hruleOf⟩ := exists_candidate_of_rule? hs hrule
  obtain ⟨front, back, hsplit⟩ := List.append_of_mem hc
  obtain ⟨new, hnew, hback⟩ := exists_placedFrom_split source front back hruleOf
  have hplacements : g.placements source root = g.placedFrom source [] front ++
      g.place source (g.placedFrom source [] front) c.site rule :: new := by
    rw [placements, hsplit, hnew]
  refine ⟨_, new, hplacements, fun ok => ?_⟩
  have hnot := candidates_not_above (g := g) hroot
  rw [hsplit, List.pairwise_append, List.pairwise_cons] at hnot
  rw [hplacements]
  -- What comes behind was placed for nodes that are not above this one.
  refine Site.nearest_append (fun a ha p hp => ?_) ok
  have hmem : a.1 ∈ c.site.above.map (·.number) := by
    rw [Site.map_number_above]
    exact List.mem_map_of_mem ha
  obtain ⟨t, ht, hta⟩ := List.mem_map.mp hmem
  rw [← hta]
  rcases List.mem_cons.mp hp with rfl | hp
  · exact (Nat.ne_of_lt (number_lt_of_mem_above hs ht)).symm
  · obtain ⟨b, hb, hbp⟩ := hback p hp
    rw [← hbp]
    exact (hnot.2.1.1 b hb t ht).symm

variable (g source root)

/-! ## The nesting rule -/

/-- The nearest class above a site. -/
def enclosingClass (s : Site) : Option Site :=
  s.above.find? fun t => (g.declarationAt source root t).any (·.kind == .classLike)

/-- The name of the class directly around a site: that of the nearest declaration above, if this is
a class.  A class without a name counts with the empty text for a name. -/
def directClassName (s : Site) : Option String :=
  ((s.above.findSome? (g.declarationAt source root)).filter (·.kind == .classLike)).map
    (·.name.getD "")

/-- The declarations of the sites that meet a condition, in the order of the candidates. -/
def declarationsWhere (ok : Site → Bool) : List Declaration :=
  (((g.candidates root).map (·.site)).filter ok).filterMap (g.declarationAt source root)

/-- Who is a member of whom in a unit, and which kinds follow. -/
structure NestingRule (unit : SourceUnit) : Prop where
  /-- There is a declaration for a node exactly when there is a rule for it. -/
  declared : ∀ s ∈ root.sites, (g.declarationAt source root s).isSome = (g.rule? s).isSome
  /-- The declaration for a node has the span of the node and its name by the rule. -/
  origin : ∀ s ∈ root.sites, ∀ rule, g.rule? s = some rule →
    ∀ d, g.declarationAt source root s = some d →
      d.span = s.node.span source ∧ d.name = g.declarationName source s rule.name
  /-- At the top level are the declarations without a class above them. -/
  top : unit.declarations =
    g.declarationsWhere source root fun s => (g.enclosingClass source root s).isNone
  /-- The members of a class are the declarations that have it as the nearest class above them; a
  callable has no members. -/
  members : ∀ t ∈ root.sites, ∀ d, g.declarationAt source root t = some d →
    d.members = if d.kind = .classLike then
      some (g.declarationsWhere source root fun s =>
        (g.enclosingClass source root s).map (·.number) == some t.number)
    else none
  /-- The kind that the rule gives is refined by the name and the class directly around. -/
  kind : ∀ s ∈ root.sites, ∀ rule, g.rule? s = some rule →
    ∀ d, g.declarationAt source root s = some d →
      d.kind = g.refineKind rule.kind d.name (g.directClassName source root s)

variable {g source root}

theorem any_declarationAt (s : Site) :
    (g.declarationAt source root s).any (·.kind == .classLike) =
      (placedAt (g.placements source root) s.number).any Placed.isClass := by
  rw [declarationAt, Option.any_map]
  rfl

theorem nearest_class_eq (s : Site) :
    s.nearest (g.placements source root) Placed.isClass =
      (g.enclosingClass source root s).bind fun t => placedAt (g.placements source root) t.number := by
  rw [Site.nearest_eq_findSome? (placements_nodup g source root), findSome?_filter_eq_bind,
    enclosingClass]
  simp only [any_declarationAt]

theorem nearest_declaration_eq (s : Site) :
    (s.nearest (g.placements source root) fun _ => true).map
        (·.filled (g.placements source root)) =
      s.above.findSome? (g.declarationAt source root) := by
  have hall : ∀ o : Option Placed, (o.filter fun _ => true) = o := fun o => by cases o <;> rfl
  rw [Site.nearest_eq_findSome? (placements_nodup g source root), List.map_findSome?]
  simp only [hall]
  rfl

/-- The name of the class directly around a site can be found while placing. -/
theorem directClassName_eq (s : Site) :
    g.directClassName source root s =
      ((s.nearest (g.placements source root) fun _ => true).filter Placed.isClass).map
        fun p => p.declaration.name.getD "" := by
  rw [directClassName, ← nearest_declaration_eq, Option.filter_map, Option.map_map]
  rfl

section

variable {s : Site} {p : Placed}

/-- What a declaration refers to as its owner is the nearest class above it. -/
theorem parent_eq (hroot : root.Everywhere Node.HoldsChildren) (hs : s ∈ root.sites)
    (hp : placedAt (g.placements source root) s.number = some p) :
    p.parent = ((g.enclosingClass source root s).bind fun t =>
      placedAt (g.placements source root) t.number).map (·.index) := by
  have hd : g.declarationAt source root s = some (p.filled (g.placements source root)) := by
    rw [declarationAt, hp]
    rfl
  obtain ⟨rule, hrule⟩ : ∃ rule, g.rule? s = some rule := by
    rw [← Option.isSome_iff_exists, ← @isSome_declarationAt g source root s hs, hd]
    rfl
  obtain ⟨placed, new, hplacements, hview⟩ := exists_place_in_view source hroot hs hrule
  have hself : placedAt (g.placements source root) s.number = some (g.place source placed s rule) :=
    (placedAt_eq_some_iff (placements_nodup g source root)).mpr
      ⟨hplacements ▸ List.mem_append_right _ List.mem_cons_self, rfl⟩
  rw [← nearest_class_eq, hview, Option.some.inj (hp.symm.trans hself)]
  rfl

/-- An enclosing class has been placed as a class. -/
theorem exists_placed_of_enclosingClass {t : Site} (ht : g.enclosingClass source root s = some t) :
    t ∈ s.above ∧ ∃ q ∈ g.placements source root,
      placedAt (g.placements source root) t.number = some q ∧ q.number = t.number := by
  have hany := List.find?_some ht
  rw [any_declarationAt, Option.any_eq_true] at hany
  obtain ⟨q, hq, _⟩ := hany
  have hmem := (placedAt_eq_some_iff (placements_nodup g source root)).mp hq
  exact ⟨List.mem_of_find?_eq_some ht, q, hmem.1, hq, hmem.2⟩

theorem parent_eq_none_iff (hroot : root.Everywhere Node.HoldsChildren) (hs : s ∈ root.sites)
    (hp : placedAt (g.placements source root) s.number = some p) :
    p.parent = none ↔ g.enclosingClass source root s = none := by
  rw [parent_eq hroot hs hp]
  cases ht : g.enclosingClass source root s with
  | none => simp
  | some t =>
    obtain ⟨_, q, _, hq, _⟩ := exists_placed_of_enclosingClass ht
    simp [hq]

theorem parent_eq_some_iff (hroot : root.Everywhere Node.HoldsChildren) (hs : s ∈ root.sites)
    (hp : placedAt (g.placements source root) s.number = some p) {q : Placed}
    (hq : q ∈ g.placements source root) :
    p.parent = some q.index ↔
      (g.enclosingClass source root s).map (·.number) = some q.number := by
  rw [parent_eq hroot hs hp]
  cases ht : g.enclosingClass source root s with
  | none => simp
  | some t =>
    obtain ⟨_, r, hr, hrt, hnumber⟩ := exists_placed_of_enclosingClass ht
    simp only [Option.bind_some, hrt, Option.map_some, Option.some.injEq]
    rw [← hnumber]
    constructor
    · intro hindex
      rw [(placements_inv g source root).index_inj hr hq hindex]
    · intro hrq
      rw [List.inj_on_of_nodup_map (placements_nodup g source root) hr hq hrq]

end

theorem filterMap_filter_comm {α β : Type} {l : List α} {f : α → Option β} {p : α → Bool}
    {q : β → Bool} (h : ∀ a ∈ l, ∀ b, f a = some b → p a = q b) :
    (l.filter p).filterMap f = (l.filterMap f).filter q := by
  induction l with
  | nil => rfl
  | cons a l ih =>
    rw [List.forall_mem_cons] at h
    have ih := ih h.2
    cases hfa : f a with
    | none => cases hpa : p a <;> simp [hpa, hfa, ih]
    | some b =>
      have hpq := h.1 b hfa
      cases hqb : q b <;> simp [hpq, hqb, hfa, ih]

/-- A condition on sites selects what the same condition on placed declarations selects. -/
theorem declarationsWhere_eq {ok : Site → Bool} {okPlaced : Placed → Bool}
    (h : ∀ s ∈ root.sites, ∀ p, placedAt (g.placements source root) s.number = some p →
      ok s = okPlaced p) :
    g.declarationsWhere source root ok =
      ((g.placements source root).filter okPlaced).map (·.filled (g.placements source root)) := by
  have hall : ((g.candidates root).map (·.site)).filterMap
      (fun s => placedAt (g.placements source root) s.number) = g.placements source root := by
    have hlookup := filterMap_placedAt (placements_sublist g source root) (candidates_nodup g root)
    rw [List.filterMap_map] at hlookup ⊢
    exact hlookup
  have hsites : ∀ s ∈ (g.candidates root).map (·.site), ∀ p,
      placedAt (g.placements source root) s.number = some p → ok s = okPlaced p := by
    intro s hs
    obtain ⟨c, hc, rfl⟩ := List.mem_map.mp hs
    exact h _ (mem_candidates_iff.mp hc).1
  rw [declarationsWhere]
  unfold declarationAt
  rw [← List.map_filterMap, filterMap_filter_comm hsites, hall]

/-- **The nesting rule holds in every unit**, if children lie inside their parents. -/
theorem nestingRule_of_canonicalize (hroot : root.Everywhere Node.HoldsChildren)
    {language path : String} {policy : UnsupportedPolicy} {unit : SourceUnit}
    (h : g.canonicalize language policy path source root = .ok unit) :
    g.NestingRule source root unit where
  declared s hs := isSome_declarationAt hs
  origin s hs rule hrule d hd := by
    obtain ⟨placed, new, hplacements⟩ := exists_place_of_rule? source hs hrule
    obtain rfl := Option.some.inj (hd.symm.trans (declarationAt_of_place hplacements))
    exact ⟨rfl, rfl⟩
  top := by
    have hforest := (placements_inv g source root).forest_eq none
    rw [declarations_of_canonicalize h, ← placements, hforest]
    refine (declarationsWhere_eq fun s hs p hp => ?_).symm
    rw [Bool.eq_iff_iff, decide_eq_true_iff, parent_eq_none_iff hroot hs hp,
      Option.isNone_iff_eq_none]
  members t ht d hd := by
    obtain ⟨q, hq, hqt, rfl⟩ := declarationAt_eq_some_iff.mp hd
    have hkind : (q.filled (g.placements source root)).kind = .classLike ↔ q.isClass = true :=
      beq_iff_eq.symm
    rw [(placements_inv g source root).members_filled hq]
    simp only [hkind]
    split_ifs with hclass
    · congr 1
      refine (declarationsWhere_eq fun s hs p hp => ?_).symm
      rw [Bool.eq_iff_iff, beq_iff_eq, decide_eq_true_iff, parent_eq_some_iff hroot hs hp hq, hqt]
    · rfl
  kind s hs rule hrule d hd := by
    obtain ⟨placed, new, hplacements, hview⟩ := exists_place_in_view source hroot hs hrule
    obtain rfl := Option.some.inj (hd.symm.trans (declarationAt_of_place hplacements))
    rw [directClassName_eq, hview]
    rfl

/-! ## Refined kinds -/

/-- A name falls into several segments exactly when it has a pair of colons. -/
theorem length_splitQualified (cs : List Char) :
    1 ≤ (splitQualified cs).length ∧
      (2 ≤ (splitQualified cs).length ↔ [':', ':'] <:+: cs) := by
  fun_induction splitQualified cs with
  | case1 cs ih =>
    have hpair : [':', ':'] <:+: ':' :: ':' :: cs := ⟨[], cs, rfl⟩
    simp only [List.length_cons, hpair, iff_true]
    omega
  | case2 c cs hcolons hnil ih =>
    rw [hnil] at ih
    exact absurd ih.1 (by simp)
  | case3 c cs hcolons segment segments hcons ih =>
    have hpair : [':', ':'] <:+: c :: cs ↔ [':', ':'] <:+: cs := by
      rw [List.infix_cons_iff, or_iff_right]
      rintro ⟨rest, hrest⟩
      obtain ⟨rfl, rfl⟩ := List.cons.inj hrest
      exact hcolons rest rfl rfl
    rw [hpair, ← ih.2, hcons]
    simp
  | case4 => simp

theorem refineKind_of_settled {kind : Kind} (hfun : kind ≠ .function) (hmeth : kind ≠ .method)
    (name className : Option String) : g.refineKind kind name className = kind := by
  cases kind <;> simp_all [refineKind, memberKind]

theorem refineKind_inside {kind : Kind} (hkind : kind = .function ∨ kind = .method)
    (name : Option String) (className : String) :
    g.refineKind kind name (some className) = .method ∨
      g.refineKind kind name (some className) = .constructor := by
  rcases hkind with rfl | rfl
  · simp only [refineKind, memberKind]
    split_ifs <;> simp
  · simp only [refineKind, memberKind]
    split_ifs <;> simp

theorem length_backwardSegments (name : String) :
    2 ≤ (backwardSegments name).length ↔ [':', ':'] <:+: name.toList := by
  rw [backwardSegments, (length_splitQualified _).2, ← List.reverse_infix, List.reverse_reverse]
  rfl

/-- Outside of classes a function stays one, unless its name is qualified and the language takes
such a name for that of a member. -/
theorem refineKind_outside (name : Option String) :
    g.refineKind .function name none = .function ↔
      ¬(g.qualifiedMembers = true ∧ ∃ n, name = some n ∧ [':', ':'] <:+: n.toList) := by
  cases hq : g.qualifiedMembers with
  | false => simp [refineKind, memberKind, hq]
  | true =>
    cases name with
    | none => simp [refineKind, memberKind, hq]
    | some n =>
      have hsegments := length_backwardSegments n
      simp only [refineKind, hq, Option.map_some, Option.some.injEq, true_and, exists_eq_left',
        ← hsegments]
      match backwardSegments n with
      | [] | [_] => simp [memberKind]
      | member :: owner :: _ =>
        simp only [List.length_cons]
        split_ifs <;> simp

/-- What becomes of the kind that a rule gives, in a language. -/
structure KindFollows (l : Language) (kind : Kind) (className : Option String) (d : Declaration) :
    Prop where
  /-- Lambdas, constructors and classes stay what they are. -/
  settled : kind = .lambda ∨ kind = .constructor ∨ kind = .classLike → d.kind = kind
  /-- Functions and methods directly inside a class are methods or constructors. -/
  inside : kind = .function ∨ kind = .method → className.isSome = true →
    d.kind = .method ∨ d.kind = .constructor
  /-- Functions elsewhere stay functions, qualified names of C++ apart. -/
  outside : kind = .function → className = none →
    (d.kind = .function ↔ ¬(l.id = "cpp" ∧ ∃ name, d.name = some name ∧ [':', ':'] <:+: name.toList))

theorem qualifiedMembers_iff : ∀ l ∈ builtinLanguages,
    (l.grammar.qualifiedMembers = true ↔ l.id = "cpp") := by decide

theorem kindFollows_of_refineKind {l : Language} (hl : l ∈ builtinLanguages) {kind : Kind}
    {className : Option String} {d : Declaration}
    (hd : d.kind = l.grammar.refineKind kind d.name className) : KindFollows l kind className d where
  settled hkind := by
    rw [hd, refineKind_of_settled] <;> rintro rfl <;> simp at hkind
  inside hkind hclass := by
    obtain ⟨name, rfl⟩ := Option.isSome_iff_exists.mp hclass
    rw [hd]
    exact refineKind_inside hkind d.name name
  outside hkind hclass := by
    subst hkind hclass
    rw [hd, refineKind_outside, qualifiedMembers_iff l hl]

/-! ## Unsupported constructs -/

section

variable (g : Grammar)

/-- The table that does not ask for unsupported constructs. -/
def withoutUnsupported : Grammar := { g with unsupported := [] }

variable {g}

mutual

theorem statementsOf_withoutUnsupported (source : Source) : ∀ n : Node,
    g.withoutUnsupported.statementsOf source n = g.statementsOf source n
  | ⟨kind, field, startByte, endByte, isNamed, isMissing, hasError, children⟩ => by
    rw [statementsOf, statementsOf, statementsOfAll_withoutUnsupported source children]
    rfl

theorem statementsOfAll_withoutUnsupported (source : Source) : ∀ ns : List Node,
    g.withoutUnsupported.statementsOfAll source ns = g.statementsOfAll source ns
  | [] => by rw [statementsOfAll, statementsOfAll]
  | n :: ns => by
    rw [statementsOfAll, statementsOfAll, statementsOf_withoutUnsupported source n,
      statementsOfAll_withoutUnsupported source ns]

end

theorem place_withoutUnsupported (source : Source) (placed : List Placed) (s : Site) (rule : Rule) :
    g.withoutUnsupported.place source placed s rule = g.place source placed s rule := by
  have hbody : g.withoutUnsupported.body source s.node = g.body source s.node := by
    simp only [body, statementsOfAll_withoutUnsupported]
    rfl
  simp only [place, hbody]
  rfl

theorem placedFrom_withoutUnsupported (source : Source) (placed : List Placed)
    (cs : List Candidate) :
    g.withoutUnsupported.placedFrom source placed cs = g.placedFrom source placed cs := by
  induction cs generalizing placed with
  | nil => rfl
  | cons c cs ih =>
    simp only [placedFrom, place_withoutUnsupported, ih]
    rfl

theorem candidate?_withoutUnsupported (s : Site) :
    g.withoutUnsupported.candidate? s = if g.declares s then some ⟨s, true⟩ else none := rfl

/-- The candidates with a rule do not depend on the unsupported constructs. -/
theorem mapped_withoutUnsupported (sites : List Site) :
    (sites.filterMap g.withoutUnsupported.candidate?).filter g.isMapped =
      (sites.filterMap g.candidate?).filter g.isMapped := by
  rw [List.filter_filterMap, List.filter_filterMap]
  refine List.filterMap_congr fun s _ => ?_
  rw [candidate?_withoutUnsupported, candidate?]
  -- A candidate that was not taken for a declaration has no rule.
  have hnone : (some (Candidate.mk s false)).filter g.isMapped = none := rfl
  split_ifs
  · rfl
  · exact hnone.symm
  · rfl

/-- **Unsupported constructs are transparent**: a table that does not ask for them leads to the
same declarations. -/
theorem placements_withoutUnsupported (source : Source) (root : Node) :
    g.withoutUnsupported.placements source root = g.placements source root := by
  have hcandidates : (g.withoutUnsupported.candidates root).filter g.isMapped =
      (g.candidates root).filter g.isMapped := by
    rw [filter_candidates, filter_candidates, mapped_withoutUnsupported]
  rw [placements, placements, placedFrom_withoutUnsupported, ← placedFrom_filter, hcandidates,
    placedFrom_filter]

end

/-! ## The built-in languages -/

/-- **Members and kinds.**  In every built-in language, for a tree whose children lie inside their
parents, skipping leads to a unit in which the nesting rule holds: each declaration is a member of
the nearest class above it, or at the top level if there is none, callables have no members, and
the kind given by the rule is refined by the name and by the class directly around.  What becomes
of each kind follows.  Unsupported constructs make no difference to the declarations. -/
theorem members_and_kinds {l : Language} (hl : l ∈ builtinLanguages) (path : String)
    (source : Source) {root : Node} (hroot : root.Everywhere Node.HoldsChildren) :
    ∃ unit, l.grammar.canonicalize l.id .skip path source root = .ok unit ∧
      l.grammar.NestingRule source root unit ∧
      (∀ s ∈ root.sites, ∀ rule, l.grammar.rule? s = some rule →
        ∀ d, l.grammar.declarationAt source root s = some d →
          KindFollows l rule.kind (l.grammar.directClassName source root s) d) ∧
      ∃ plain, l.grammar.withoutUnsupported.canonicalize l.id .skip path source root = .ok plain ∧
        plain.declarations = unit.declarations := by
  obtain ⟨unit, hunit⟩ := exists_canonicalize_skip l.grammar l.id path source root
  obtain ⟨plain, hplain⟩ :=
    exists_canonicalize_skip l.grammar.withoutUnsupported l.id path source root
  have hnesting := nestingRule_of_canonicalize hroot hunit
  refine ⟨unit, hunit, hnesting, fun s hs rule hrule d hd => ?_, plain, hplain, ?_⟩
  · exact kindFollows_of_refineKind hl (hnesting.kind s hs rule hrule d hd)
  · rw [declarations_of_canonicalize hplain, declarations_of_canonicalize hunit, ← placements,
      ← placements, placements_withoutUnsupported]

theorem annotatedTree_members_and_kinds :
    ∃ unit, java.canonicalize "java" .skip "A.java" annotatedSource annotatedTree = .ok unit ∧
      (unit.declarations.map fun d => d.memberList.map (·.span.startByte)) = [[21, 31, 42]] ∧
      java.NestingRule annotatedSource annotatedTree unit ∧
      ∃ plain, java.withoutUnsupported.canonicalize "java" .skip "A.java" annotatedSource
          annotatedTree = .ok plain ∧ plain.declarations = unit.declarations := by
  have hmem : ⟨"java", ["java"], java⟩ ∈ builtinLanguages := by simp [builtinLanguages]
  have hroot : annotatedTree.Everywhere Node.HoldsChildren := by decide
  obtain ⟨unit, hunit, hnesting, _, plain, hplain, hsame⟩ :=
    members_and_kinds hmem "A.java" annotatedSource hroot
  refine ⟨unit, hunit, ?_, hnesting, plain, hplain, hsame⟩
  have hcandidates : java.candidates annotatedTree = _ := candidates_of_pairwise (by decide)
  rw [declarations_of_canonicalize hunit, hcandidates]
  rfl

end Grammar

end Hollow
