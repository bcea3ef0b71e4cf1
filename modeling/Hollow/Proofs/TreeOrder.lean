import Hollow.Canonical

/-!
# Pre-order and source order

The sites of a tree are listed in pre-order; candidates are sorted by where they begin and end.
In a tree whose ranges fit together the two orders are the same.

* `Node.HoldsChildren`, `Node.ChildrenInOrder` — the two conditions on a node and its children;
  `Node.Everywhere` asks for a condition at every node of a tree.
* `sites_within` — the range of every node lies inside the ranges of the nodes above it.
* `sites_pairwise` — of two sites, the second lies inside the first or behind it.
* `filter_candidates_eq_preorder` — sorting leaves the candidates in pre-order.
-/

namespace Hollow

namespace Node

/-! ## Conditions on trees -/

/-- The range of a node lies inside that of another. -/
def Within (n outer : Node) : Prop := outer.startByte ≤ n.startByte ∧ n.endByte ≤ outer.endByte

/-- The children lie inside the node. -/
def HoldsChildren (n : Node) : Prop := ∀ c ∈ n.children, c.Within n

/-- The children are in order and do not overlap. -/
def ChildrenInOrder (n : Node) : Prop := n.children.Pairwise fun a b => a.endByte ≤ b.startByte

/-- A condition holds at every node of a tree. -/
def Everywhere (root : Node) (P : Node → Prop) : Prop := ∀ s ∈ root.sites, P s.node

instance (n outer : Node) : Decidable (n.Within outer) :=
  inferInstanceAs (Decidable (_ ∧ _))

instance : DecidablePred HoldsChildren := fun n =>
  inferInstanceAs (Decidable (∀ c ∈ n.children, c.Within n))

instance : DecidablePred ChildrenInOrder := fun n =>
  inferInstanceAs (Decidable (n.children.Pairwise fun a b => a.endByte ≤ b.startByte))

instance (root : Node) (P : Node → Prop) [DecidablePred P] : Decidable (root.Everywhere P) :=
  inferInstanceAs (Decidable (∀ s ∈ root.sites, P s.node))

theorem Within.refl (n : Node) : n.Within n := ⟨Nat.le_refl _, Nat.le_refl _⟩

theorem Within.trans {a b c : Node} (hab : a.Within b) (hbc : b.Within c) : a.Within c :=
  ⟨Nat.le_trans hbc.1 hab.1, Nat.le_trans hab.2 hbc.2⟩

mutual

theorem recursion {P : Node → Prop} (h : ∀ n, (∀ c ∈ n.children, P c) → P n) : ∀ n, P n
  | ⟨_, _, _, _, _, _, _, children⟩ => h _ (recursionAll h children)

theorem recursionAll {P : Node → Prop} (h : ∀ n, (∀ c ∈ n.children, P c) → P n) :
    ∀ (ns : List Node), ∀ c ∈ ns, P c
  | [] => fun _ hc => absurd hc List.not_mem_nil
  | n :: ns => List.forall_mem_cons.mpr ⟨recursion h n, recursionAll h ns⟩

end

/-- Induction over the nesting of nodes. -/
@[elab_as_elim]
theorem induction {P : Node → Prop} (n : Node) (step : ∀ n, (∀ c ∈ n.children, P c) → P n) : P n :=
  recursion step n

/-! ## Sites -/

theorem sitesFrom_eq (number : Nat) (ancestors : List (Nat × Node)) (n : Node) :
    sitesFrom number ancestors n =
      ⟨number, n, ancestors⟩ :: sitesFromAll (number + 1) ((number, n) :: ancestors) n.children := by
  cases n; rfl

mutual

/-- Everything in a tree lies inside the root. -/
theorem sites_within : ∀ (number : Nat) (ancestors : List (Nat × Node)) (n : Node),
    (∀ s ∈ sitesFrom number ancestors n, s.node.HoldsChildren) →
    ∀ s ∈ sitesFrom number ancestors n, s.node.Within n
  | number, ancestors, ⟨kind, field, startByte, endByte, isNamed, isMissing, hasError, children⟩ => by
    intro h s hs
    rw [sitesFrom_eq, List.forall_mem_cons] at h
    rw [sitesFrom_eq, List.mem_cons] at hs
    rcases hs with rfl | hs
    · exact Within.refl _
    · obtain ⟨c, hc, hsc⟩ := sitesAll_within _ _ children h.2 s hs
      exact hsc.trans (h.1 c hc)

theorem sitesAll_within : ∀ (number : Nat) (ancestors : List (Nat × Node)) (ns : List Node),
    (∀ s ∈ sitesFromAll number ancestors ns, s.node.HoldsChildren) →
    ∀ s ∈ sitesFromAll number ancestors ns, ∃ n ∈ ns, s.node.Within n
  | _, _, [] => by
    intro _ s hs
    cases hs
  | number, ancestors, n :: ns => by
    intro h s hs
    rw [sitesFromAll, List.forall_mem_append] at h
    rw [sitesFromAll, List.mem_append] at hs
    rcases hs with hs | hs
    · exact ⟨n, List.mem_cons_self, sites_within number ancestors n h.1 s hs⟩
    · obtain ⟨m, hm, hsm⟩ := sitesAll_within _ ancestors ns h.2 s hs
      exact ⟨m, List.mem_cons_of_mem _ hm, hsm⟩

end

/-- The second site lies inside the first or behind it. -/
def InOrder (s t : Site) : Prop := t.node.Within s.node ∨ s.node.endByte ≤ t.node.startByte

mutual

/-- **Pre-order is source order**: of two sites, the second lies inside the first or behind it. -/
theorem sites_pairwise : ∀ (number : Nat) (ancestors : List (Nat × Node)) (n : Node),
    (∀ s ∈ sitesFrom number ancestors n, s.node.HoldsChildren) →
    (∀ s ∈ sitesFrom number ancestors n, s.node.ChildrenInOrder) →
    (sitesFrom number ancestors n).Pairwise InOrder
  | number, ancestors, ⟨kind, field, startByte, endByte, isNamed, isMissing, hasError, children⟩ => by
    intro hholds horder
    have hwithin := sites_within number ancestors _ hholds
    rw [sitesFrom_eq, List.forall_mem_cons] at hholds horder hwithin
    rw [sitesFrom_eq, List.pairwise_cons]
    exact ⟨fun t ht => Or.inl (hwithin.2 t ht),
      sitesAll_pairwise _ _ children hholds.2 horder.2 horder.1⟩

theorem sitesAll_pairwise : ∀ (number : Nat) (ancestors : List (Nat × Node)) (ns : List Node),
    (∀ s ∈ sitesFromAll number ancestors ns, s.node.HoldsChildren) →
    (∀ s ∈ sitesFromAll number ancestors ns, s.node.ChildrenInOrder) →
    (ns.Pairwise fun a b => a.endByte ≤ b.startByte) →
    (sitesFromAll number ancestors ns).Pairwise InOrder
  | _, _, [] => by
    intro _ _ _
    exact List.Pairwise.nil
  | number, ancestors, n :: ns => by
    intro hholds horder hns
    rw [sitesFromAll, List.forall_mem_append] at hholds horder
    rw [List.pairwise_cons] at hns
    rw [sitesFromAll, List.pairwise_append]
    refine ⟨sites_pairwise number ancestors n hholds.1 horder.1,
      sitesAll_pairwise _ ancestors ns hholds.2 horder.2 hns.2, fun s hs t ht => Or.inr ?_⟩
    have hsn := sites_within number ancestors n hholds.1 s hs
    obtain ⟨m, hm, htm⟩ := sitesAll_within _ ancestors ns hholds.2 t ht
    calc s.node.endByte ≤ n.endByte := hsn.2
      _ ≤ m.startByte := hns.1 m hm
      _ ≤ t.node.startByte := htm.1

end

end Node

/-! ## Candidates -/

theorem Grammar.site_of_candidate? {g : Grammar} {s : Site} {c : Candidate}
    (h : g.candidate? s = some c) : c.site = s := by
  unfold Grammar.candidate? at h
  split at h
  · cases h; rfl
  · split at h
    · cases h; rfl
    · cases h

/-- Candidates in order of their sites are in the order in which candidates are taken. -/
theorem Candidate.precedes_of_inOrder {a b : Candidate} (h : Node.InOrder a.site b.site)
    (ha : a.site.node.startByte < a.site.node.endByte) : a.precedes b = true := by
  unfold Candidate.precedes
  simp only [Bool.or_eq_true, Bool.and_eq_true, decide_eq_true_eq, beq_iff_eq]
  rcases h with hwithin | hbehind
  · have := hwithin.1
    have := hwithin.2
    omega
  · omega

theorem Candidate.precedes_trans (a b c : Candidate) (hab : a.precedes b = true)
    (hbc : b.precedes c = true) : a.precedes c = true := by
  simp only [Candidate.precedes, Bool.or_eq_true, Bool.and_eq_true, decide_eq_true_eq,
    beq_iff_eq] at *
  omega

theorem Candidate.precedes_total (a b : Candidate) : (a.precedes b || b.precedes a) = true := by
  simp only [Candidate.precedes, Bool.or_eq_true, Bool.and_eq_true, decide_eq_true_eq, beq_iff_eq]
  omega

/-- **Sorting leaves candidates in pre-order**, where ranges fit together, as far as they have an
extent. -/
theorem Grammar.filter_candidates_eq_preorder {g : Grammar} {root : Node} {p : Candidate → Bool}
    (hholds : root.Everywhere Node.HoldsChildren) (horder : root.Everywhere Node.ChildrenInOrder)
    (hextent : ∀ s ∈ root.sites, ∀ c, g.candidate? s = some c → p c = true →
      s.node.startByte < s.node.endByte) :
    (g.candidates root).filter p = (root.sites.filterMap g.candidate?).filter p := by
  have hsorted : ((root.sites.filterMap g.candidate?).filter p).Pairwise
      fun a b => a.precedes b = true := by
    rw [List.pairwise_filter, List.pairwise_filterMap]
    refine (Node.sites_pairwise 0 [] root hholds horder).imp_of_mem fun hs _ hst a ha b hb => ?_
    obtain rfl := g.site_of_candidate? ha
    obtain rfl := g.site_of_candidate? hb
    exact fun hpa _ => Candidate.precedes_of_inOrder hst (hextent _ hs a ha hpa)
  -- Sorting is stable, so what is in order already is found in this order.
  have hsublist := List.sublist_mergeSort Candidate.precedes_trans Candidate.precedes_total hsorted
    List.filter_sublist
  have hlength := ((List.mergeSort_perm (root.sites.filterMap g.candidate?)
    Candidate.precedes).filter p).length_eq
  refine (List.Sublist.eq_of_length ?_ hlength.symm).symm
  simpa using hsublist.filter p

end Hollow
