import Hollow.Proofs.Ancestry
import Hollow.Proofs.SourceOrder

/-!
# What a unit holds for a node

A unit is built from a flat sequence of placed declarations, in which nodes are known by their
numbers and classes by their indices.  This file says what becomes of a single node, for every
syntax tree.

* `placedAt` — what was placed for the node with a number.
* `PlacedInv.forest_eq` — member lists in closed form: a class holds what refers to it, in the
  order of the sequence.
* `Grammar.rule?`, `Grammar.declarationAt` — the rule for a site, and the declaration that the unit
  holds for it.
* `exists_place_of_rule?` — for a site with a rule a declaration is placed, given those in front.
* `isSome_declarationAt` — exactly the sites with a rule have a declaration.
* `mem_walkAll_of_declarationAt` — a walk over the unit meets the declaration of every site.
-/

namespace Hollow

/-! ## Looking up by number -/

/-- What was placed for the node with a number. -/
def placedAt (ps : List Placed) (number : Nat) : Option Placed := ps.find? (·.number == number)

theorem find?_eq_some_iff_of_unique {α : Type} {l : List α} {P : α → Bool} {a : α}
    (hunique : ∀ a ∈ l, ∀ b ∈ l, P a = true → P b = true → a = b) :
    l.find? P = some a ↔ a ∈ l ∧ P a = true := by
  constructor
  · intro h
    exact ⟨List.mem_of_find?_eq_some h, List.find?_some h⟩
  · rintro ⟨ha, hPa⟩
    cases h : l.find? P with
    | none => exact absurd hPa (List.find?_eq_none.mp h a ha)
    | some b =>
      have hb := List.mem_of_find?_eq_some h
      rw [hunique b hb a ha (List.find?_some h) hPa]

section

variable {ps : List Placed} {number : Nat} {p : Placed}

theorem placedAt_eq_some_iff (hnodup : (ps.map (·.number)).Nodup) :
    placedAt ps number = some p ↔ p ∈ ps ∧ p.number = number := by
  have hunique : ∀ a ∈ ps, ∀ b ∈ ps, (a.number == number) = true → (b.number == number) = true →
      a = b := by
    intro a ha b hb hna hnb
    rw [beq_iff_eq] at hna hnb
    exact List.inj_on_of_nodup_map hnodup ha hb (hna.trans hnb.symm)
  rw [placedAt, find?_eq_some_iff_of_unique hunique, beq_iff_eq]

theorem placedAt_eq_none_iff : placedAt ps number = none ↔ ∀ p ∈ ps, p.number ≠ number := by
  simp [placedAt]

/-- A further condition can be checked afterwards. -/
theorem find?_number_and (hnodup : (ps.map (·.number)).Nodup) (ok : Placed → Bool) :
    (ps.find? fun p => p.number == number && ok p) = (placedAt ps number).filter ok := by
  have hunique : ∀ a ∈ ps, ∀ b ∈ ps, (a.number == number && ok a) = true →
      (b.number == number && ok b) = true → a = b := by
    intro a ha b hb hna hnb
    rw [Bool.and_eq_true, beq_iff_eq] at hna hnb
    exact List.inj_on_of_nodup_map hnodup ha hb (hna.1.trans hnb.1.symm)
  refine Option.ext fun p => ?_
  rw [find?_eq_some_iff_of_unique hunique, Option.filter_eq_some_iff, placedAt_eq_some_iff hnodup,
    Bool.and_eq_true, beq_iff_eq, and_assoc]

/-- Looking up numbers in order gives back the sequence. -/
theorem filterMap_placedAt {numbers : List Nat} (hsub : (ps.map (·.number)).Sublist numbers)
    (hnodup : numbers.Nodup) : numbers.filterMap (placedAt ps) = ps := by
  induction numbers generalizing ps with
  | nil => simpa using hsub
  | cons n numbers ih =>
    rw [List.nodup_cons] at hnodup
    rcases List.sublist_cons_iff.mp hsub with hsub | ⟨rest, hps, hsub⟩
    · have hnone : placedAt ps n = none := placedAt_eq_none_iff.mpr fun p hp hpn =>
        hnodup.1 (hsub.subset (List.mem_map.mpr ⟨p, hp, hpn⟩))
      rw [List.filterMap_cons_none hnone, ih hsub hnodup.2]
    · obtain ⟨p, qs, rfl, rfl, rfl⟩ := List.map_eq_cons_iff.mp hps
      have hhead : placedAt (p :: qs) p.number = some p := by simp [placedAt]
      have htail : numbers.filterMap (placedAt (p :: qs)) = numbers.filterMap (placedAt qs) := by
        refine List.filterMap_congr fun n hn => ?_
        have hne : p.number ≠ n := fun h => hnodup.1 (h ▸ hn)
        simp [placedAt, hne]
      rw [List.filterMap_cons_some hhead, htail, ih hsub hnodup.2]

end

/-! ## Member lists in closed form -/

/-- A member comes behind its owner. -/
theorem Attached.owner_before {owners : List (Option Nat)} {front back : List Placed} {p : Placed}
    (h : Attached owners (front ++ p :: back)) :
    p.parent ∈ owners ∨ ∃ q ∈ front, q.isClass = true ∧ p.parent = some q.index := by
  induction front generalizing owners with
  | nil => exact Or.inl h.1
  | cons q front ih =>
    rcases ih h.2 with hp | ⟨r, hr, hrp⟩
    · split_ifs at hp with hclass
      · rcases List.mem_cons.mp hp with hp | hp
        · exact Or.inr ⟨q, List.mem_cons_self, hclass, hp⟩
        · exact Or.inl hp
      · exact Or.inl hp
    · exact Or.inr ⟨r, List.mem_cons_of_mem _ hr, hrp⟩

theorem forest_append {owner : Option Nat} {front back : List Placed}
    (h : ∀ p ∈ front, p.parent ≠ owner) : forest owner (front ++ back) = forest owner back := by
  induction front with
  | nil => rfl
  | cons p front ih =>
    rw [List.forall_mem_cons] at h
    rw [List.cons_append, forest, if_neg h.1, ih h.2]

namespace PlacedInv

variable {ps : List Placed}

theorem index_lt (h : PlacedInv ps) : ps.Pairwise fun p q => p.index < q.index := by
  rw [← List.pairwise_map, h.index]
  exact List.pairwise_lt_range

theorem index_inj (h : PlacedInv ps) {p q : Placed} (hp : p ∈ ps) (hq : q ∈ ps)
    (hpq : p.index = q.index) : p = q := by
  have hnodup : (ps.map (·.index)).Nodup := by
    rw [h.index]
    exact List.nodup_range
  exact List.inj_on_of_nodup_map hnodup hp hq hpq

/-- Every owner is a class of the sequence with a smaller index. -/
theorem exists_owner (h : PlacedInv ps) {p : Placed} (hp : p ∈ ps) :
    p.parent = none ∨ ∃ q ∈ ps, q.isClass = true ∧ p.parent = some q.index ∧ q.index < p.index := by
  obtain ⟨front, back, rfl⟩ := List.append_of_mem hp
  rcases h.attached.owner_before with hnone | ⟨q, hq, hclass, hparent⟩
  · exact Or.inl (by simpa using hnone)
  · have hlt := (List.pairwise_append.mp h.index_lt).2.2 q hq p List.mem_cons_self
    exact Or.inr ⟨q, List.mem_append_left _ hq, hclass, hparent, hlt⟩

/-- Nothing up to a class refers to it. -/
theorem parent_ne (h : PlacedInv ps) {front back : List Placed} {p : Placed}
    (hps : ps = front ++ p :: back) : ∀ q ∈ front ++ [p], q.parent ≠ some p.index := by
  subst hps
  intro q hq hparent
  have hmem : q ∈ front ++ p :: back := by
    rcases List.mem_append.mp hq with hq | hq
    · exact List.mem_append_left _ hq
    · exact List.mem_append_right _ (List.mem_singleton.mp hq ▸ List.mem_cons_self)
  have hle : q.index ≤ p.index := by
    rcases List.mem_append.mp hq with hq | hq
    · exact Nat.le_of_lt ((List.pairwise_append.mp h.index_lt).2.2 q hq p List.mem_cons_self)
    · exact Nat.le_of_eq (List.mem_singleton.mp hq ▸ rfl)
  rcases h.exists_owner hmem with hnone | ⟨r, _, _, hr, hlt⟩
  · rw [hnone] at hparent
    cases hparent
  · have hrp : r.index = p.index := Option.some.inj (hr.symm.trans hparent)
    omega

/-- The members of a placed declaration can be read off the whole sequence. -/
theorem filled_eq (h : PlacedInv ps) {front back : List Placed} {p : Placed}
    (hps : ps = front ++ p :: back) : p.filled back = p.filled ps := by
  have hforest : forest (some p.index) ps = forest (some p.index) back := by
    have happend : ps = (front ++ [p]) ++ back := by rw [hps]; simp
    rw [happend, forest_append (h.parent_ne hps)]
  rw [Placed.filled, Placed.filled, hforest]

theorem forest_suffix (h : PlacedInv ps) (owner : Option Nat) {front back : List Placed}
    (hps : ps = front ++ back) :
    forest owner back = (back.filter fun p => p.parent = owner).map (·.filled ps) := by
  induction back generalizing front with
  | nil => rfl
  | cons p back ih =>
    have hnext : ps = (front ++ [p]) ++ back := by rw [hps]; simp
    have ih := ih hnext
    have hfilled := h.filled_eq hps
    rw [forest, List.filter_cons]
    by_cases hparent : p.parent = owner
    · rw [if_pos hparent, if_pos (decide_eq_true hparent), List.map_cons, ← hfilled, ih]
      rfl
    · rw [if_neg hparent, if_neg (by simpa using hparent), ih]

/-- **Member lists in closed form**: an owner has what refers to it, in the order of the sequence,
each with its own members. -/
theorem forest_eq (h : PlacedInv ps) (owner : Option Nat) :
    forest owner ps = (ps.filter fun p => p.parent = owner).map (·.filled ps) :=
  h.forest_suffix owner (List.nil_append ps).symm

theorem members_filled (h : PlacedInv ps) {p : Placed} (hp : p ∈ ps) :
    (p.filled ps).members =
      if p.isClass then some ((ps.filter fun q => q.parent = some p.index).map (·.filled ps))
      else none := by
  have hun : p.declaration.members = _ := h.unfilled p hp
  rw [← h.forest_eq]
  simp only [Placed.filled, hun]
  split_ifs <;> rfl

/-- A walk over the forest of a sequence meets everything in it. -/
theorem filled_mem_walkAll (h : PlacedInv ps) {p : Placed} (hp : p ∈ ps) :
    p.filled ps ∈ Declaration.walkAll (forest none ps) := by
  -- The owner has a smaller index, so that a walk meets it, and after it all of its members.
  obtain ⟨i, hi⟩ : ∃ i, p.index = i := ⟨_, rfl⟩
  induction i using Nat.strongRecOn generalizing p with
  | ind i ih =>
    rw [Declaration.mem_walkAll_iff]
    rcases h.exists_owner hp with hnone | ⟨q, hq, hclass, hparent, hlt⟩
    · refine ⟨p.filled ps, ?_, Declaration.self_mem_walk _⟩
      rw [h.forest_eq]
      exact List.mem_map_of_mem (List.mem_filter.mpr ⟨hp, decide_eq_true hnone⟩)
    · obtain ⟨d, hd, hqd⟩ := Declaration.mem_walkAll_iff.mp (ih q.index (hi ▸ hlt) hq rfl)
      have hmembers := h.members_filled hq
      rw [if_pos hclass] at hmembers
      have hmem : p.filled ps ∈ (q.filled ps).memberList := by
        rw [Declaration.memberList_some hmembers]
        exact List.mem_map_of_mem (List.mem_filter.mpr ⟨hp, decide_eq_true hparent⟩)
      exact ⟨d, hd, Declaration.mem_walk_of_mem_memberList hqd hmem⟩

end PlacedInv

/-! ## Runs -/

namespace Grammar

section

variable {g : Grammar} (source : Source)

/-- A run only adds to what was placed before it. -/
theorem exists_placedFrom_append (placed : List Placed) (cs : List Candidate) :
    ∃ new, g.placedFrom source placed cs = placed ++ new ∧
      new.map (·.number) = (cs.filter g.isMapped).map (·.site.number) := by
  have hprefix : ∃ new, g.placedFrom source placed cs = placed ++ new := by
    induction cs generalizing placed with
    | nil => exact ⟨[], by simp [placedFrom]⟩
    | cons c cs ih =>
      rw [placedFrom]
      cases g.ruleOf c with
      | none => exact ih placed
      | some rule =>
        obtain ⟨new, hnew⟩ := ih (placed ++ [g.place source placed c.site rule])
        exact ⟨g.place source placed c.site rule :: new, by simp [hnew]⟩
  obtain ⟨new, hnew⟩ := hprefix
  have hnumbers : (g.placedFrom source placed cs).map (·.number) =
      placed.map (·.number) ++ (cs.filter g.isMapped).map (·.site.number) :=
    map_placedFrom (fun _ _ _ => rfl) placed cs
  rw [hnew, List.map_append] at hnumbers
  exact ⟨new, hnew, List.append_cancel_left hnumbers⟩

/-- A candidate with a rule is placed in view of those in front of it. -/
theorem exists_placedFrom_split (front back : List Candidate) {c : Candidate} {rule : Rule}
    (hrule : g.ruleOf c = some rule) :
    ∃ new, g.placedFrom source [] (front ++ c :: back) =
        g.placedFrom source [] front ++
          g.place source (g.placedFrom source [] front) c.site rule :: new ∧
      ∀ p ∈ new, ∃ b ∈ back, b.site.number = p.number := by
  obtain ⟨new, hnew, hnumbers⟩ := exists_placedFrom_append (g := g) source
    (g.placedFrom source [] front ++
      [g.place source (g.placedFrom source [] front) c.site rule]) back
  refine ⟨new, ?_, fun p hp => ?_⟩
  · rw [placedFrom_append, placedFrom, hrule]
    simp only [hnew, List.append_assoc, List.singleton_append]
  · have hmem := List.mem_map_of_mem (f := (·.number)) hp
    rw [hnumbers] at hmem
    obtain ⟨b, hb, hbp⟩ := List.mem_map.mp hmem
    exact ⟨b, (List.mem_filter.mp hb).1, hbp⟩

end

/-! ## Sites and their declarations -/

variable (g : Grammar) (source : Source) (root : Node)

/-- The rule for a site, if the grammar takes it for a declaration. -/
def rule? (s : Site) : Option Rule := if g.declares s then g.ruleFor s.node.kind else none

/-- The declarations placed for a tree, in order. -/
def placements : List Placed := g.placedFrom source [] (g.candidates root)

/-- The declaration that a unit holds for a site. -/
def declarationAt (s : Site) : Option Declaration :=
  (placedAt (g.placements source root) s.number).map (·.filled (g.placements source root))

theorem placements_inv : PlacedInv (g.placements source root) := placedFrom_inv .nil _

theorem map_number_placements :
    (g.placements source root).map (·.number) =
      ((g.candidates root).filter g.isMapped).map (·.site.number) :=
  map_placedFrom (fun _ _ _ => rfl) [] _

theorem placements_sublist :
    ((g.placements source root).map (·.number)).Sublist
      ((g.candidates root).map (·.site.number)) := by
  rw [map_number_placements]
  exact List.filter_sublist.map _

theorem placements_nodup : ((g.placements source root).map (·.number)).Nodup :=
  (candidates_nodup g root).sublist (placements_sublist g source root)

variable {g source root}

theorem declarationAt_eq_some_iff {s : Site} {d : Declaration} :
    g.declarationAt source root s = some d ↔
      ∃ p ∈ g.placements source root, p.number = s.number ∧
        p.filled (g.placements source root) = d := by
  rw [declarationAt, Option.map_eq_some_iff]
  simp only [placedAt_eq_some_iff (placements_nodup g source root), and_assoc]

theorem exists_candidate_of_rule? {s : Site} {rule : Rule} (hs : s ∈ root.sites)
    (hrule : g.rule? s = some rule) :
    ∃ c ∈ g.candidates root, c.site = s ∧ g.ruleOf c = some rule := by
  unfold rule? at hrule
  split_ifs at hrule with hdeclares
  have hcandidate : g.candidate? s = some ⟨s, true⟩ := if_pos hdeclares
  refine ⟨⟨s, true⟩, mem_candidates_iff.mpr ⟨hs, hcandidate⟩, rfl, ?_⟩
  simpa [ruleOf] using hrule

theorem rule?_of_ruleOf {c : Candidate} {rule : Rule} (hc : c ∈ g.candidates root)
    (hrule : g.ruleOf c = some rule) : g.rule? c.site = some rule := by
  have hcandidate := (mem_candidates_iff.mp hc).2
  have hmapped : g.isMapped c = true := by simp [isMapped, hrule]
  have hdeclares := declares_of_isMapped hcandidate hmapped
  unfold ruleOf at hrule
  split_ifs at hrule
  rwa [rule?, if_pos hdeclares]

/-- **A site with a rule gets a declaration**, placed in view of what is in front of it. -/
theorem exists_place_of_rule? (source : Source) {s : Site} {rule : Rule} (hs : s ∈ root.sites)
    (hrule : g.rule? s = some rule) :
    ∃ placed new, g.placements source root = placed ++ g.place source placed s rule :: new := by
  obtain ⟨c, hc, rfl, hruleOf⟩ := exists_candidate_of_rule? hs hrule
  obtain ⟨front, back, hsplit⟩ := List.append_of_mem hc
  obtain ⟨new, hnew, _⟩ := exists_placedFrom_split source front back hruleOf
  exact ⟨_, new, by rw [placements, hsplit, hnew]⟩

/-- The declaration of a site with a rule, members apart, is the one placed for it. -/
theorem declarationAt_of_place {s : Site} {rule : Rule} {placed new : List Placed}
    (h : g.placements source root = placed ++ g.place source placed s rule :: new) :
    g.declarationAt source root s =
      some ((g.place source placed s rule).filled (g.placements source root)) :=
  declarationAt_eq_some_iff.mpr
    ⟨_, h ▸ List.mem_append_right _ List.mem_cons_self, rfl, rfl⟩

/-- Exactly the sites with a rule have a declaration. -/
theorem isSome_declarationAt {s : Site} (hs : s ∈ root.sites) :
    (g.declarationAt source root s).isSome = (g.rule? s).isSome := by
  cases hrule : g.rule? s with
  | some rule =>
    obtain ⟨placed, new, h⟩ := exists_place_of_rule? source hs hrule
    rw [declarationAt_of_place h]
    rfl
  | none =>
    rw [Option.isSome_none, Option.isSome_eq_false_iff, Option.isNone_iff_eq_none, declarationAt,
      Option.map_eq_none_iff, placedAt_eq_none_iff]
    intro p hp hnumber
    have hmem := List.mem_map_of_mem (f := (·.number)) hp
    rw [map_number_placements] at hmem
    obtain ⟨c, hc, hcp⟩ := List.mem_map.mp hmem
    obtain ⟨hc, hmapped⟩ := List.mem_filter.mp hc
    obtain ⟨rule, hruleOf⟩ := Option.isSome_iff_exists.mp hmapped
    obtain rfl := eq_of_number_eq (mem_candidates_iff.mp hc).1 hs (hcp.trans hnumber)
    rw [rule?_of_ruleOf hc hruleOf] at hrule
    cases hrule

/-- The declaration of a site comes from the rule for the site. -/
theorem exists_place_of_declarationAt {s : Site} {d : Declaration} (hs : s ∈ root.sites)
    (hd : g.declarationAt source root s = some d) :
    ∃ rule placed new, g.rule? s = some rule ∧
      g.placements source root = placed ++ g.place source placed s rule :: new ∧
      d = (g.place source placed s rule).filled (g.placements source root) := by
  have hsome : (g.rule? s).isSome = true := by
    rw [← @isSome_declarationAt g source root s hs, hd]
    rfl
  obtain ⟨rule, hrule⟩ := Option.isSome_iff_exists.mp hsome
  obtain ⟨placed, new, h⟩ := exists_place_of_rule? source hs hrule
  exact ⟨rule, placed, new, hrule, h, Option.some.inj (hd.symm.trans (declarationAt_of_place h))⟩

/-- The declaration of a site has the span of its node, and the body or member block of the node. -/
theorem span_body_of_declarationAt {s : Site} {d : Declaration} (hs : s ∈ root.sites)
    (hd : g.declarationAt source root s = some d) :
    d.span = s.node.span source ∧
      d.body = if d.kind = .classLike then g.memberBlock source s.node else g.body source s.node := by
  obtain ⟨rule, placed, new, _, _, rfl⟩ := exists_place_of_declarationAt hs hd
  exact ⟨rfl, rfl⟩

/-- A walk over the unit meets the declaration of every site. -/
theorem mem_walkAll_of_declarationAt {language path : String} {policy : UnsupportedPolicy}
    {unit : SourceUnit} {s : Site} {d : Declaration}
    (h : g.canonicalize language policy path source root = .ok unit)
    (hd : g.declarationAt source root s = some d) : d ∈ Declaration.walkAll unit.declarations := by
  obtain ⟨p, hp, _, rfl⟩ := declarationAt_eq_some_iff.mp hd
  rw [declarations_of_canonicalize h]
  exact (placements_inv g source root).filled_mem_walkAll hp

end Grammar

end Hollow
