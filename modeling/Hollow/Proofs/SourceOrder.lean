import Hollow.Language
import Hollow.Proofs.CanonicalUnit
import Hollow.Proofs.TreeOrder

/-!
# Declarations in source order

A walk over the declarations of a unit meets them in the pre-order of the syntax tree, although
they were sorted by their ranges, numbered in a flat sequence and then hung below the nearest class
around them.

* `Nests` — what a run over the candidates of a subtree appends: declarations that belong to the
  nearest class around the subtree, or are nested in one of the others.  `nests_sites` shows it for
  every subtree, one case for each way in which a node is dealt with.
* `outline_placedFrom`, `walkAll_shell_eq` — so building member lists moves nothing.
* `Complete` — every node that a grammar takes for a declaration has a rule, as in all built-in
  languages (`complete_builtin`).
* `canonicalize_in_source_order` — identifiers count up along a walk, and the spans are those of
  the nodes taken for declarations, in pre-order.
-/

namespace Hollow

/-! ## The nearest class -/

/-- The index of the nearest of the ancestors that was placed as a class. -/
def ownerIndex (ancestors : List (Nat × Node)) (placed : List Placed) : Option Nat :=
  (ancestors.findSome? fun a => placed.find? fun p => p.number == a.1 && p.isClass).map (·.index)

theorem find?_number_eq_none {placed : List Placed} {number : Nat}
    (h : ∀ p ∈ placed, p.isClass = true → p.number ≠ number) :
    (placed.find? fun p => p.number == number && p.isClass) = none := by
  rw [List.find?_eq_none]
  intro p hp hok
  rw [Bool.and_eq_true, beq_iff_eq] at hok
  exact h p hp hok.2 hok.1

/-- What was placed for other nodes does not matter. -/
theorem ownerIndex_append {ancestors : List (Nat × Node)} {placed new : List Placed}
    (h : ∀ a ∈ ancestors, ∀ p ∈ new, p.number ≠ a.1) :
    ownerIndex ancestors (placed ++ new) = ownerIndex ancestors placed := by
  have hnearest : (Site.mk 0 default ancestors).nearest (placed ++ new) Placed.isClass = _ :=
    Site.nearest_append h Placed.isClass
  exact congrArg (Option.map Placed.index) hnearest

/-- A node for which no class was placed is passed over. -/
theorem ownerIndex_cons_of_ne {number : Nat} {n : Node} {ancestors : List (Nat × Node)}
    {placed : List Placed} (h : ∀ p ∈ placed, p.isClass = true → p.number ≠ number) :
    ownerIndex ((number, n) :: ancestors) placed = ownerIndex ancestors placed := by
  unfold ownerIndex
  rw [List.findSome?_cons, find?_number_eq_none h]

/-- Below the node that was placed last, the owner is its class, if it is one, and otherwise what
it was before. -/
theorem ownerIndex_cons_self {n : Node} {ancestors : List (Nat × Node)} {placed : List Placed}
    {p : Placed} (hanc : ∀ a ∈ ancestors, a.1 < p.number)
    (hplaced : ∀ q ∈ placed, q.number < p.number) :
    ownerIndex ((p.number, n) :: ancestors) (placed ++ [p]) =
      if p.isClass then some p.index else ownerIndex ancestors placed := by
  have hne : ∀ q ∈ placed, q.number ≠ p.number := fun q hq => Nat.ne_of_lt (hplaced q hq)
  split_ifs with hclass
  · unfold ownerIndex
    rw [List.findSome?_cons, List.find?_append, find?_number_eq_none fun q hq _ => hne q hq]
    simp [hclass]
  · rw [ownerIndex_cons_of_ne, ownerIndex_append]
    · intro a ha q hq
      have := hanc a ha
      rw [List.mem_singleton.mp hq]
      omega
    · refine List.forall_mem_append.mpr ⟨fun q hq _ => hne q hq, ?_⟩
      simpa using hclass

/-! ## Runs over subtrees -/

namespace Grammar

section Nests

variable (g : Grammar) (source : Source)

/-- Whatever was placed before, a run appends a nested sequence below the nearest class among the
ancestors, for nodes with numbers from `first` and below `bound`. -/
def Nests (ancestors : List (Nat × Node)) (first bound : Nat) (cs : List Candidate) : Prop :=
  ∀ done : List Placed, (∀ p ∈ done, p.number < first) →
    ∃ new, g.placedFrom source done cs = done ++ new ∧ Nested (ownerIndex ancestors done) new ∧
      ∀ p ∈ new, first ≤ p.number ∧ p.number < bound

variable {g source}

theorem placedFrom_append (placed : List Placed) (cs ds : List Candidate) :
    g.placedFrom source placed (cs ++ ds) =
      g.placedFrom source (g.placedFrom source placed cs) ds := by
  induction cs generalizing placed with
  | nil => rfl
  | cons c cs ih =>
    rw [List.cons_append, placedFrom, placedFrom]
    split
    · exact ih _
    · exact ih _

theorem Nests.nil (ancestors : List (Nat × Node)) (first : Nat) :
    g.Nests source ancestors first first [] :=
  fun done _ => ⟨[], by simp [placedFrom], .nil _, by simp⟩

/-- Neighbouring subtrees have the same owner. -/
theorem Nests.append {ancestors : List (Nat × Node)} {first middle bound : Nat}
    {cs ds : List Candidate} (hanc : ∀ a ∈ ancestors, a.1 < first) (hfm : first ≤ middle)
    (hmb : middle ≤ bound) (hcs : g.Nests source ancestors first middle cs)
    (hds : g.Nests source ancestors middle bound ds) :
    g.Nests source ancestors first bound (cs ++ ds) := by
  intro done hdone
  obtain ⟨new, hnew, hnested, hnumbers⟩ := hcs done hdone
  have hdone' : ∀ p ∈ done ++ new, p.number < middle := List.forall_mem_append.mpr
    ⟨fun p hp => Nat.lt_of_lt_of_le (hdone p hp) hfm, fun p hp => (hnumbers p hp).2⟩
  obtain ⟨more, hmore, hnested', hnumbers'⟩ := hds (done ++ new) hdone'
  rw [ownerIndex_append fun a ha p hp => by
    have := hanc a ha
    have := hnumbers p hp
    omega] at hnested'
  refine ⟨new ++ more, ?_, hnested.append hnested', List.forall_mem_append.mpr ⟨?_, ?_⟩⟩
  · rw [placedFrom_append, hnew, hmore, List.append_assoc]
  · intro p hp
    have := hnumbers p hp
    omega
  · intro p hp
    have := hnumbers' p hp
    omega

variable {ancestors : List (Nat × Node)} {number bound : Nat} {n : Node} {cs : List Candidate}

/-- A node that is not a candidate, or skipped, is as if it were not there. -/
theorem Nests.skip (h : g.Nests source ((number, n) :: ancestors) (number + 1) bound cs) :
    g.Nests source ancestors number bound cs := by
  intro done hdone
  obtain ⟨new, hnew, hnested, hnumbers⟩ := h done fun p hp => Nat.lt_succ_of_lt (hdone p hp)
  rw [ownerIndex_cons_of_ne fun p hp _ => Nat.ne_of_lt (hdone p hp)] at hnested
  refine ⟨new, hnew, hnested, fun p hp => ?_⟩
  have := hnumbers p hp
  omega

/-- A candidate comes before everything below it.  If a class is placed for it, that is the owner
below it; otherwise the owner stays what it was. -/
theorem Nests.cons {c : Candidate} (hc : c.site = ⟨number, n, ancestors⟩)
    (hanc : ∀ a ∈ ancestors, a.1 < number) (hbound : number < bound)
    (h : g.Nests source ((number, n) :: ancestors) (number + 1) bound cs) :
    g.Nests source ancestors number bound (c :: cs) := by
  intro done hdone
  rw [placedFrom]
  cases g.ruleOf c with
  | none => exact h.skip done hdone
  | some rule =>
    obtain ⟨p, hp⟩ : ∃ p, p = g.place source done c.site rule := ⟨_, rfl⟩
    have hparent : p.parent = ownerIndex ancestors done := by rw [hp, hc]; rfl
    obtain rfl : p.number = number := by rw [hp, hc]; rfl
    have hdone' : ∀ q ∈ done ++ [p], q.number < p.number + 1 := List.forall_mem_append.mpr
      ⟨fun q hq => Nat.lt_succ_of_lt (hdone q hq), by simp⟩
    obtain ⟨new, hnew, hnested, hnumbers⟩ := h (done ++ [p]) hdone'
    rw [ownerIndex_cons_self hanc hdone] at hnested
    simp only [← hp]
    refine ⟨p :: new, by rw [hnew]; simp, hnested.cons hparent,
      List.forall_mem_cons.mpr ⟨by omega, fun q hq => ?_⟩⟩
    have := hnumbers q hq
    omega

end Nests

variable {g : Grammar} {source : Source}

mutual

/-- **What a subtree holds is nested below the nearest class around it.** -/
theorem nests_sites :
    ∀ (number : Nat) (ancestors : List (Nat × Node)) (n : Node),
    (∀ a ∈ ancestors, a.1 < number) →
    g.Nests source ancestors number (number + n.size)
      ((Node.sitesFrom number ancestors n).filterMap g.candidate?)
  | number, ancestors, ⟨kind, field, startByte, endByte, isNamed, isMissing, hasError, children⟩ => by
    intro hanc
    have hbelow := nests_sitesAll (number + 1) ((number, ⟨kind, field, startByte, endByte,
      isNamed, isMissing, hasError, children⟩) :: ancestors) children
      (List.forall_mem_cons.mpr ⟨Nat.lt_succ_self _, fun a ha => Nat.lt_succ_of_lt (hanc a ha)⟩)
    rw [Nat.add_right_comm] at hbelow
    rw [Node.sitesFrom_eq, List.filterMap_cons, Node.size, ← Nat.add_assoc]
    split
    · exact hbelow.skip
    · rename_i c hc
      exact hbelow.cons (g.site_of_candidate? hc) hanc (by omega)

theorem nests_sitesAll :
    ∀ (number : Nat) (ancestors : List (Nat × Node)) (ns : List Node),
    (∀ a ∈ ancestors, a.1 < number) →
    g.Nests source ancestors number (number + Node.sizeAll ns)
      ((Node.sitesFromAll number ancestors ns).filterMap g.candidate?)
  | number, ancestors, [] => by
    intro _
    exact Nests.nil ancestors number
  | number, ancestors, n :: ns => by
    intro hanc
    have hnode := nests_sites number ancestors n hanc
    have hrest := nests_sitesAll (number + n.size) ancestors ns
      fun a ha => Nat.lt_add_right _ (hanc a ha)
    rw [Node.sitesFromAll, List.filterMap_append, Node.sizeAll, ← Nat.add_assoc]
    exact hnode.append hanc (Nat.le_add_right _ _) (Nat.le_add_right _ _) hrest

end

/-- Candidates without a rule place nothing. -/
theorem placedFrom_filter (placed : List Placed) (cs : List Candidate) :
    g.placedFrom source placed (cs.filter g.isMapped) = g.placedFrom source placed cs := by
  induction cs generalizing placed with
  | nil => rfl
  | cons c cs ih =>
    rw [List.filter_cons, isMapped, placedFrom]
    cases hc : g.ruleOf c with
    | some rule => simp [placedFrom, hc, ih]
    | none => simp [ih]

/-! ## Walks -/

theorem declares_of_isMapped {s : Site} {c : Candidate} (hc : g.candidate? s = some c)
    (h : g.isMapped c = true) : g.declares s = true := by
  unfold candidate? at hc
  split_ifs at hc with hs hun
  · exact hs
  · cases hc
    cases h

/-- The tree fits together: children lie inside their parent, in order and without overlap, and
the nodes that the grammar takes for declarations have an extent. -/
structure FitsTogether (g : Grammar) (root : Node) : Prop where
  holds : root.Everywhere Node.HoldsChildren
  order : root.Everywhere Node.ChildrenInOrder
  extent : ∀ s ∈ root.sites, g.declares s = true → s.node.startByte < s.node.endByte

theorem FitsTogether.mapped_eq {root : Node} (h : g.FitsTogether root) :
    (g.candidates root).filter g.isMapped = (root.sites.filterMap g.candidate?).filter g.isMapped :=
  filter_candidates_eq_preorder h.holds h.order fun s hs _ hc hmapped =>
    h.extent s hs (declares_of_isMapped hc hmapped)

/-- **Building member lists moves nothing.** -/
theorem outline_placedFrom {root : Node} (h : g.FitsTogether root) :
    outline none (g.placedFrom source [] (g.candidates root)) =
      (g.placedFrom source [] (g.candidates root)).map (·.declaration) := by
  have hpreorder : g.placedFrom source [] (g.candidates root) =
      g.placedFrom source [] (root.sites.filterMap g.candidate?) := by
    rw [← placedFrom_filter, h.mapped_eq, placedFrom_filter]
  have hinv : PlacedInv (g.placedFrom source [] (g.candidates root)) := placedFrom_inv .nil _
  obtain ⟨placed, hplaced, hnested, _⟩ :=
    @nests_sites g source 0 [] root (by simp) [] (by simp)
  rw [List.nil_append] at hplaced
  rw [← hplaced, ← Node.sites, ← hpreorder] at hnested
  refine hnested.outline_eq hinv.unfilled ?_ (by simp [ownerIndex])
  rw [hinv.index]
  exact List.nodup_range

end Grammar

/-! ## Complete tables -/

/-- The kind of node that a pattern asks for. -/
def Pattern.nodeKind : Pattern → String
  | .kind k | .withField k _ _ | .withChild k _ | .under _ k => k

theorem Pattern.kind_of_matches {p : Pattern} {s : Site} (h : p.matches s = true) :
    s.node.kind = p.nodeKind := by
  unfold Pattern.matches at h
  rw [Bool.and_eq_true] at h
  cases p with
  | kind k => exact beq_iff_eq.mp h.2
  | withField k f j => exact beq_iff_eq.mp (Bool.and_eq_true_iff.mp h.2).1
  | withChild k j => exact beq_iff_eq.mp (Bool.and_eq_true_iff.mp h.2).1
  | under k j => exact beq_iff_eq.mp (Bool.and_eq_true_iff.mp h.2).1

namespace Grammar

/-- There is a rule for every kind of node that the grammar takes for a declaration. -/
def Complete (g : Grammar) : Prop := ∀ p ∈ g.declarations, (g.ruleFor p.nodeKind).isSome = true

instance : DecidablePred Complete := fun g =>
  inferInstanceAs (Decidable (∀ p ∈ g.declarations, (g.ruleFor p.nodeKind).isSome = true))

theorem complete_builtin : ∀ l ∈ builtinLanguages, l.grammar.Complete := by decide

variable {g : Grammar} {source : Source}

/-- In a complete grammar what is taken for a declaration has a rule. -/
theorem Complete.isMapped (hg : g.Complete) {s : Site} (hs : g.declares s = true) :
    g.isMapped ⟨s, true⟩ = true := by
  obtain ⟨p, hp, hps⟩ := List.any_eq_true.mp hs
  simp only [Grammar.isMapped, ruleOf, if_true, p.kind_of_matches hps]
  exact hg p hp

/-- In a complete grammar the candidates with a rule are the sites taken for declarations. -/
theorem Complete.mapped_sites (hg : g.Complete) (sites : List Site) :
    ((sites.filterMap g.candidate?).filter g.isMapped).map (·.site) = sites.filter g.declares := by
  induction sites with
  | nil => rfl
  | cons s sites ih =>
    rw [List.filterMap_cons, List.filter_cons]
    cases hs : g.declares s with
    | true => simp [candidate?, hs, hg.isMapped hs, ih]
    | false =>
      by_cases hun : g.unsupported.any (·.matches s) = true
      · simp [candidate?, hs, hun, Grammar.isMapped, ruleOf, ih]
      · simp [candidate?, hs, hun, ih]

/-! ## Units in source order -/

section

variable {language path : String} {policy : UnsupportedPolicy} {root : Node} {unit : SourceUnit}

/-- A walk shows what was placed, in order. -/
theorem walkAll_shell_eq (hroot : g.FitsTogether root)
    (h : g.canonicalize language policy path source root = .ok unit) :
    (Declaration.walkAll unit.declarations).map Declaration.shell =
      (g.placedFrom source [] (g.candidates root)).map (·.declaration) := by
  rw [declarations_of_canonicalize h]
  exact outline_placedFrom hroot

/-- Identifiers count up along a walk, as long as there are enough of them. -/
theorem walkAll_ids (hroot : g.FitsTogether root)
    (h : g.canonicalize language policy path source root = .ok unit)
    (hcount : unit.count ≤ UInt32.size) :
    (Declaration.walkAll unit.declarations).map (·.id) = List.range unit.count := by
  obtain ⟨placed, hplaced⟩ : ∃ placed, placed = g.placedFrom source [] (g.candidates root) :=
    ⟨_, rfl⟩
  have hinv : PlacedInv placed := hplaced ▸ placedFrom_inv .nil _
  have hshell := walkAll_shell_eq hroot h
  rw [← hplaced] at hshell
  have hlength : placed.length = unit.count := by
    simpa [SourceUnit.count] using (congrArg List.length hshell).symm
  calc (Declaration.walkAll unit.declarations).map (·.id)
      = ((Declaration.walkAll unit.declarations).map Declaration.shell).map (·.id) := by
        rw [List.map_map]; rfl
    _ = placed.map fun p => p.index % UInt32.size := by
        rw [hshell, List.map_map]
        exact List.map_congr_left hinv.id
    _ = (List.range placed.length).map (· % UInt32.size) := by
        rw [← hinv.index, List.map_map]; rfl
    _ = List.range unit.count := by
        rw [hlength]
        conv_rhs => rw [← List.map_id (List.range unit.count)]
        exact List.map_congr_left fun i hi =>
          Nat.mod_eq_of_lt (Nat.lt_of_lt_of_le (List.mem_range.mp hi) hcount)

/-- Spans are those of the sites taken for declarations, in pre-order. -/
theorem walkAll_spans (hg : g.Complete) (hroot : g.FitsTogether root)
    (h : g.canonicalize language policy path source root = .ok unit) :
    (Declaration.walkAll unit.declarations).map (·.span) =
      (root.sites.filter g.declares).map (·.node.span source) := by
  calc (Declaration.walkAll unit.declarations).map (·.span)
      = ((Declaration.walkAll unit.declarations).map Declaration.shell).map (·.span) := by
        rw [List.map_map]; rfl
    _ = (g.placedFrom source [] (g.candidates root)).map (·.declaration.span) := by
        rw [walkAll_shell_eq hroot h, List.map_map]; rfl
    _ = ((g.candidates root).filter g.isMapped).map (·.site.node.span source) :=
        map_placedFrom (fun _ _ _ => rfl) [] _
    _ = (root.sites.filter g.declares).map (·.node.span source) := by
        rw [hroot.mapped_eq, ← hg.mapped_sites, List.map_map]; rfl

end

/-- **Declarations come in source order.**  In every built-in language, for a tree that fits
together, a walk over the declarations of the unit meets the nodes that the grammar takes for
declarations, each once and in pre-order, and numbers them from zero. -/
theorem canonicalize_in_source_order {l : Language} (hl : l ∈ builtinLanguages) (path : String)
    (source : Source) {root : Node} (hroot : l.grammar.FitsTogether root)
    (hcount : (root.sites.filter l.grammar.declares).length ≤ UInt32.size) :
    ∃ unit, l.grammar.canonicalize l.id .skip path source root = .ok unit ∧
      (Declaration.walkAll unit.declarations).map (·.id) =
        List.range (root.sites.filter l.grammar.declares).length ∧
      (Declaration.walkAll unit.declarations).map (·.span) =
        (root.sites.filter l.grammar.declares).map (·.node.span source) := by
  obtain ⟨unit, hunit⟩ := exists_canonicalize_skip l.grammar l.id path source root
  have hspans := walkAll_spans (complete_builtin l hl) hroot hunit
  have hlength : unit.count = (root.sites.filter l.grammar.declares).length := by
    simpa [SourceUnit.count] using congrArg List.length hspans
  refine ⟨unit, hunit, ?_, hspans⟩
  rw [← hlength] at hcount ⊢
  exact walkAll_ids hroot hunit hcount

theorem annotatedTree_in_source_order :
    ∃ unit, java.canonicalize "java" .skip "A.java" annotatedSource annotatedTree = .ok unit ∧
      (Declaration.walkAll unit.declarations).map (·.id) = [0, 1, 2, 3] ∧
      (Declaration.walkAll unit.declarations).map (fun d => (d.span.startByte, d.span.endByte)) =
        [(0, 51), (21, 30), (31, 50), (42, 47)] := by
  have hmem : ⟨"java", ["java"], java⟩ ∈ builtinLanguages := by simp [builtinLanguages]
  have hroot : java.FitsTogether annotatedTree := ⟨by decide, by decide, by decide⟩
  obtain ⟨unit, hunit, hids, hspans⟩ :=
    canonicalize_in_source_order hmem "A.java" annotatedSource hroot (by decide)
  refine ⟨unit, hunit, hids.trans (by decide), ?_⟩
  have hranges := congrArg (List.map fun s : Span => (s.startByte, s.endByte)) hspans
  rw [List.map_map, List.map_map] at hranges
  exact hranges.trans (by decide)

end Grammar

end Hollow
