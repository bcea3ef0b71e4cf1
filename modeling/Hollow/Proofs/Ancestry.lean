import Hollow.Proofs.TreeOrder
import Mathlib.Data.List.Nodup

/-!
# Sites and the sites above them

A site carries its ancestors, so that the sites above it can be read off.  They are sites of the
same tree with smaller numbers, and where children lie inside their parents they hold it.  Sorting
candidates keeps those above in front, also where ranges are equal or have no extent.

* `Site.above` — the sites above a site, nearest first.
* `map_number_sites` — the sites of a tree are numbered in order.
* `mem_sites_of_mem_above`, `within_of_mem_above` — what is above a site, and that it holds it.
* `Candidate.Before` — the order of candidates with ties decided by number; `candidates_before`
  says that candidates are in this order, for every tree.
* `candidates_not_above` — no candidate comes behind one that it is above of.
* `filter_candidates` — leaving candidates out does not change the order of the others.
-/

namespace Hollow

/-! ## Above a site -/

namespace Site

/-- The sites of a chain of ancestors. -/
def chain : List (Nat × Node) → List Site
  | [] => []
  | a :: rest => ⟨a.1, a.2, rest⟩ :: chain rest

/-- The sites above a site, nearest first. -/
def above (s : Site) : List Site := chain s.ancestors

theorem map_number_above (s : Site) : s.above.map (·.number) = s.ancestors.map (·.1) := by
  obtain ⟨number, node, ancestors⟩ := s
  simp only [above]
  induction ancestors with
  | nil => rfl
  | cons a rest ih => rw [chain, List.map_cons, List.map_cons, ih]

end Site

namespace Node

mutual

/-- The sites of a tree are numbered in order. -/
theorem map_number_sitesFrom : ∀ (number : Nat) (ancestors : List (Nat × Node)) (n : Node),
    (sitesFrom number ancestors n).map (·.number) = List.range' number n.size
  | number, ancestors, ⟨kind, field, startByte, endByte, isNamed, isMissing, hasError, children⟩ => by
    rw [sitesFrom_eq, List.map_cons, map_number_sitesFromAll, size, List.range'_succ]

theorem map_number_sitesFromAll : ∀ (number : Nat) (ancestors : List (Nat × Node)) (ns : List Node),
    (sitesFromAll number ancestors ns).map (·.number) = List.range' number (sizeAll ns)
  | _, _, [] => rfl
  | number, ancestors, n :: ns => by
    rw [sitesFromAll, List.map_append, map_number_sitesFrom, map_number_sitesFromAll, sizeAll,
      List.range'_append_1]

end

theorem map_number_sites (root : Node) : root.sites.map (·.number) = List.range' 0 root.size :=
  map_number_sitesFrom 0 [] root

/-- The site of a node is followed by those of its children, each of which has it as the nearest
site above. -/
structure IsParent (t s : Site) : Prop where
  ancestors : s.ancestors = (t.number, t.node) :: t.ancestors
  child : s.node ∈ t.node.children
  number : t.number < s.number

mutual

/-- Every site but the first has a parent among the sites. -/
theorem sites_parent : ∀ (number : Nat) (ancestors : List (Nat × Node)) (n : Node),
    ∀ s ∈ sitesFrom number ancestors n,
      s = ⟨number, n, ancestors⟩ ∨ ∃ t ∈ sitesFrom number ancestors n, IsParent t s
  | number, ancestors, ⟨kind, field, startByte, endByte, isNamed, isMissing, hasError, children⟩ => by
    intro s hs
    rw [sitesFrom_eq] at hs ⊢
    rcases List.mem_cons.mp hs with hs | hs
    · exact Or.inl hs
    · refine Or.inr ?_
      rcases sitesAll_parent _ _ _ s hs with ⟨hnumber, hchild, hanc⟩ | ⟨t, ht, hparent⟩
      · exact ⟨_, List.mem_cons_self, ⟨hanc, hchild, hnumber⟩⟩
      · exact ⟨t, List.mem_cons_of_mem _ ht, hparent⟩

theorem sitesAll_parent : ∀ (number : Nat) (ancestors : List (Nat × Node)) (ns : List Node),
    ∀ s ∈ sitesFromAll number ancestors ns,
      (number ≤ s.number ∧ s.node ∈ ns ∧ s.ancestors = ancestors) ∨
        ∃ t ∈ sitesFromAll number ancestors ns, IsParent t s
  | _, _, [] => by
    intro s hs
    cases hs
  | number, ancestors, n :: ns => by
    intro s hs
    rw [sitesFromAll] at hs ⊢
    rcases List.mem_append.mp hs with hs | hs
    · rcases sites_parent number ancestors n s hs with rfl | ⟨t, ht, hparent⟩
      · exact Or.inl ⟨Nat.le_refl _, List.mem_cons_self, rfl⟩
      · exact Or.inr ⟨t, List.mem_append_left _ ht, hparent⟩
    · rcases sitesAll_parent _ ancestors ns s hs with ⟨hnumber, hmem, hanc⟩ | ⟨t, ht, hparent⟩
      · exact Or.inl ⟨by omega, List.mem_cons_of_mem _ hmem, hanc⟩
      · exact Or.inr ⟨t, List.mem_append_right _ ht, hparent⟩

end

end Node

section

variable {root : Node} {s t : Site}

/-- Nothing is above the first site of a tree, and above every other one there are its parent and
what is above that. -/
theorem above_cases (hs : s ∈ root.sites) :
    s.above = [] ∨ ∃ t ∈ root.sites, s.above = t :: t.above ∧ Node.IsParent t s := by
  rcases Node.sites_parent 0 [] root s hs with rfl | ⟨t, ht, hparent⟩
  · exact Or.inl rfl
  · refine Or.inr ⟨t, ht, ?_, hparent⟩
    rw [Site.above, hparent.ancestors]
    rfl

/-- A relation that holds between a site and its parent, and along chains, holds between a site and
everything above it. -/
theorem forall_above {R : Site → Site → Prop}
    (hparent : ∀ s ∈ root.sites, ∀ t ∈ root.sites, Node.IsParent t s → R s t)
    (htrans : ∀ {s t r}, R s t → R t r → R s r) (hs : s ∈ root.sites) :
    ∀ t ∈ s.above, t ∈ root.sites ∧ R s t := by
  obtain ⟨n, hn⟩ : ∃ n, s.above.length = n := ⟨_, rfl⟩
  induction n generalizing s with
  | zero =>
    intro t ht
    rw [List.length_eq_zero_iff.mp hn] at ht
    cases ht
  | succ n ih =>
    rcases above_cases hs with hnil | ⟨p, hp, hcons, hps⟩
    · simp [hnil] at hn
    · have hsp := hparent s hs p hp hps
      rw [hcons] at hn ⊢
      refine List.forall_mem_cons.mpr ⟨⟨hp, hsp⟩, fun t ht => ?_⟩
      obtain ⟨hmem, hpt⟩ := ih hp (by simpa using hn) t ht
      exact ⟨hmem, htrans hsp hpt⟩

theorem mem_sites_of_mem_above (hs : s ∈ root.sites) (ht : t ∈ s.above) : t ∈ root.sites :=
  (forall_above (R := fun _ _ => True) (fun _ _ _ _ _ => trivial) (fun _ _ => trivial) hs t ht).1

theorem number_lt_of_mem_above (hs : s ∈ root.sites) (ht : t ∈ s.above) : t.number < s.number :=
  (forall_above (R := fun s t => t.number < s.number) (fun _ _ _ _ h => h.number)
    (fun h₁ h₂ => Nat.lt_trans h₂ h₁) hs t ht).2

/-- A node lies inside everything above it. -/
theorem within_of_mem_above (hroot : root.Everywhere Node.HoldsChildren) (hs : s ∈ root.sites)
    (ht : t ∈ s.above) : s.node.Within t.node :=
  (forall_above (R := fun s t => s.node.Within t.node) (fun _ _ t ht h => hroot t ht _ h.child)
    (fun h₁ h₂ => h₁.trans h₂) hs t ht).2

/-- A site of a tree is known by its number. -/
theorem eq_of_number_eq (hs : s ∈ root.sites) (ht : t ∈ root.sites) (h : s.number = t.number) :
    s = t := by
  have hnodup : (root.sites.map (·.number)).Nodup := by
    rw [Node.map_number_sites]
    exact List.nodup_range'
  exact List.inj_on_of_nodup_map hnodup hs ht h

end

/-! ## The order of candidates -/

namespace Candidate

/-- The order of candidates, in which those that begin and end together are told apart by their
numbers. -/
def Before (a b : Candidate) : Prop :=
  a.precedes b = true ∧ (b.precedes a = true → a.site.number < b.site.number)

theorem Before.asymm {a b : Candidate} (hab : a.Before b) (hba : b.Before a) : False :=
  Nat.lt_asymm (hab.2 hba.1) (hba.2 hab.1)

/-- **Sorting is stable**: candidates in order of their numbers are put in an order that their
numbers refine. -/
theorem mergeSort_before {cs : List Candidate}
    (h : cs.Pairwise fun a b => a.site.number < b.site.number) :
    (cs.mergeSort precedes).Pairwise Before := by
  induction cs with
  | nil => simp
  | cons c cs ih =>
    rw [List.pairwise_cons] at h
    obtain ⟨front, back, hsort, hrest, hfront⟩ :=
      List.mergeSort_cons precedes_trans precedes_total c cs
    have hordered := List.pairwise_mergeSort precedes_trans precedes_total (c :: cs)
    have hmem : ∀ b ∈ back, b ∈ cs := fun b hb =>
      List.mem_mergeSort.mp (hrest ▸ List.mem_append_right _ hb)
    have ih := ih h.2
    rw [hsort] at hordered ⊢
    rw [hrest] at ih
    simp only [List.pairwise_append, List.pairwise_cons, List.forall_mem_cons] at hordered ih ⊢
    -- What the new candidate is put behind precedes it strictly; the rest has greater numbers.
    have hbefore : ∀ a ∈ front, a.Before c := fun a ha =>
      ⟨(hordered.2.2 a ha).1, fun hca => absurd hca (by simpa using hfront a ha)⟩
    exact ⟨ih.1, ⟨fun b hb => ⟨hordered.2.1.1 b hb, fun _ => h.1 b (hmem b hb)⟩, ih.2.1⟩,
      fun a ha => ⟨hbefore a ha, ih.2.2 a ha⟩⟩

end Candidate

namespace Grammar

variable {g : Grammar} {root : Node}

/-- The candidates of a tree have the numbers of different sites, in order. -/
theorem candidates_numbers (g : Grammar) (root : Node) :
    (root.sites.filterMap g.candidate?).Pairwise fun a b => a.site.number < b.site.number := by
  have hsites : root.sites.Pairwise fun s t => s.number < t.number := by
    rw [← List.pairwise_map, Node.map_number_sites]
    exact List.pairwise_lt_range'
  refine hsites.filterMap _ fun s t hst a ha b hb => ?_
  rwa [g.site_of_candidate? ha, g.site_of_candidate? hb]

theorem candidates_before (g : Grammar) (root : Node) :
    (g.candidates root).Pairwise Candidate.Before :=
  Candidate.mergeSort_before (candidates_numbers g root)

theorem mem_candidates_iff {c : Candidate} :
    c ∈ g.candidates root ↔ c.site ∈ root.sites ∧ g.candidate? c.site = some c := by
  rw [candidates, List.mem_mergeSort, List.mem_filterMap]
  constructor
  · rintro ⟨s, hs, hc⟩
    obtain rfl := g.site_of_candidate? hc
    exact ⟨hs, hc⟩
  · rintro ⟨hs, hc⟩
    exact ⟨_, hs, hc⟩

/-- Candidates that are in order stay in pre-order. -/
theorem candidates_of_pairwise
    (h : (root.sites.filterMap g.candidate?).Pairwise fun a b => a.precedes b = true) :
    g.candidates root = root.sites.filterMap g.candidate? :=
  List.mergeSort_of_pairwise h

theorem candidates_nodup (g : Grammar) (root : Node) :
    ((g.candidates root).map (·.site.number)).Nodup := by
  have hnodup : ((root.sites.filterMap g.candidate?).map (·.site.number)).Nodup :=
    List.pairwise_map.mpr ((candidates_numbers g root).imp Nat.ne_of_lt)
  exact ((List.mergeSort_perm _ _).map _).nodup_iff.mpr hnodup

/-- **What is above comes first**: no candidate is above one in front of it. -/
theorem candidates_not_above (hroot : root.Everywhere Node.HoldsChildren) :
    (g.candidates root).Pairwise fun a b => ∀ t ∈ a.site.above, t.number ≠ b.site.number := by
  refine (candidates_before g root).imp_of_mem fun {a b} ha hb hab t ht hnumber => ?_
  have hsa := (mem_candidates_iff.mp ha).1
  obtain rfl := eq_of_number_eq (mem_sites_of_mem_above hsa ht) (mem_candidates_iff.mp hb).1 hnumber
  have hwithin := within_of_mem_above hroot hsa ht
  have hlt := number_lt_of_mem_above hsa ht
  have hprecedes : b.precedes a = true := by
    simp only [Candidate.precedes, Bool.or_eq_true, Bool.and_eq_true, decide_eq_true_eq, beq_iff_eq]
    have := hwithin.1
    have := hwithin.2
    omega
  have := hab.2 hprecedes
  omega

/-- Leaving candidates out does not change the order of the others. -/
theorem filter_candidates (p : Candidate → Bool) :
    (g.candidates root).filter p =
      ((root.sites.filterMap g.candidate?).filter p).mergeSort Candidate.precedes := by
  have hperm : ((g.candidates root).filter p).Perm
      (((root.sites.filterMap g.candidate?).filter p).mergeSort Candidate.precedes) :=
    ((List.mergeSort_perm _ _).filter p).trans (List.mergeSort_perm _ _).symm
  refine hperm.eq_of_pairwise (fun a b _ _ hab hba => (hab.asymm hba).elim)
    ((candidates_before g root).filter p) ?_
  exact Candidate.mergeSort_before ((candidates_numbers g root).filter p)

end Grammar

end Hollow
