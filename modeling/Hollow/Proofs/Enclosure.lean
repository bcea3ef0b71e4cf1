import Hollow.Proofs.Cursor
import Hollow.Proofs.Nesting

/-!
# Verdicts and the classes above a node

The verdicts of a report are nested like the declarations of the unit, and these like the classes
of the syntax tree.  So what is around a verdict can be read off the tree.

* `Grammar.classesAbove` — the classes above a site, nearest first, by the table alone.
* `Grammar.IsAbout` — a place in a report is about a site: its verdict is on the declaration of the
  site, and the verdicts around it are those on the classes above the site, in order.
* `exists_site_of_mem_spots` — every place in a report is about a site.
* `exists_spot_of_declarationAt` — every site with a declaration has such a place.
-/

namespace Hollow

namespace Node

/-- A named node, for trees that are written out. -/
def named (field : Option String) (kind : String) (startByte endByte : Nat)
    (children : List Node) : Node :=
  ⟨kind, field, startByte, endByte, true, false, false, children⟩

/-- A piece of punctuation or a keyword, for trees that are written out. -/
def token (kind : String) (startByte endByte : Nat) : Node :=
  ⟨kind, none, startByte, endByte, false, false, false, []⟩

end Node

namespace Grammar

/-! ## Classes above a site -/

/-- The table takes a site for a class. -/
def isClass (g : Grammar) (s : Site) : Bool := (g.rule? s).any (·.kind == .classLike)

/-- The classes above a site, nearest first. -/
def classesAbove (g : Grammar) (s : Site) : List Site := s.above.filter g.isClass

variable {g : Grammar} {source : Source} {root : Node} {s t : Site}

/-- Refining a kind neither makes a class nor unmakes one. -/
theorem refineKind_eq_classLike_iff (kind : Kind) (name className : Option String) :
    g.refineKind kind name className = .classLike ↔ kind = .classLike := by
  unfold refineKind memberKind
  split
  · split_ifs <;> simp
  · split
    · split_ifs <;> simp
    · split_ifs <;> simp
    · rfl

/-- The classes of a unit are those of the table. -/
theorem any_declarationAt_eq_isClass (hs : s ∈ root.sites) :
    (g.declarationAt source root s).any (·.kind == .classLike) = g.isClass s := by
  cases hrule : g.rule? s with
  | none =>
    have hnone := @isSome_declarationAt g source root s hs
    rw [hrule, Option.isSome_none, Option.isSome_eq_false_iff, Option.isNone_iff_eq_none] at hnone
    simp [hnone, isClass, hrule]
  | some rule =>
    obtain ⟨placed, new, hplacements⟩ := exists_place_of_rule? source hs hrule
    rw [declarationAt_of_place hplacements, isClass, hrule, Bool.eq_iff_iff]
    simp only [Option.any_some, beq_iff_eq]
    exact refineKind_eq_classLike_iff _ _ _

theorem enclosingClass_eq (hs : s ∈ root.sites) :
    g.enclosingClass source root s = (g.classesAbove s).head? := by
  rw [enclosingClass, classesAbove, ← List.head?_filter]
  congr 1
  exact List.filter_congr fun t ht => any_declarationAt_eq_isClass (mem_sites_of_mem_above hs ht)

/-- Above the nearest class are the other ones. -/
theorem classesAbove_of_head? (h : (g.classesAbove s).head? = some t) :
    g.classesAbove s = t :: g.classesAbove t := by
  obtain ⟨number, node, ancestors⟩ := s
  simp only [classesAbove, Site.above] at h ⊢
  induction ancestors with
  | nil => cases h
  | cons a rest ih =>
    rw [Site.chain, List.filter_cons] at h ⊢
    split_ifs at h ⊢ with hclass
    · obtain rfl := Option.some.inj h
      rfl
    · exact ih h

/-- What is above a site as a class has a declaration that is one. -/
theorem exists_declarationAt_of_mem_classesAbove (source : Source) (hs : s ∈ root.sites)
    (ht : t ∈ g.classesAbove s) :
    t ∈ root.sites ∧ ∃ c, g.declarationAt source root t = some c ∧ c.kind = .classLike := by
  obtain ⟨habove, hclass⟩ := List.mem_filter.mp ht
  have hmem := mem_sites_of_mem_above hs habove
  rw [← @any_declarationAt_eq_isClass g source root t hmem, Option.any_eq_true] at hclass
  obtain ⟨c, hc, hkind⟩ := hclass
  exact ⟨hmem, c, hc, beq_iff_eq.mp hkind⟩

/-! ## Places in a report -/

variable (g source root)

/-- The verdict is on the declaration of a site. -/
def HasVerdict (noOps : Bool) (s : Site) (v : Verdict) : Prop :=
  ∃ d, g.declarationAt source root s = some d ∧ classify noOps d = .ok v

/-- The verdict of a place is on the declaration of a site, and those around it are on the classes
above the site. -/
def IsAbout (noOps : Bool) (spot : Spot) (s : Site) : Prop :=
  s ∈ root.sites ∧
    List.Forall₂ (g.HasVerdict source root noOps) (s :: g.classesAbove s)
      (spot.verdict :: spot.ancestors)

variable {g source root}

theorem IsAbout.isSome_rule? {noOps : Bool} {spot : Spot}
    (h : g.IsAbout source root noOps spot s) : (g.rule? s).isSome = true := by
  obtain ⟨hs, hverdicts⟩ := h
  obtain ⟨⟨d, hd, _⟩, _⟩ := List.forall₂_cons.mp hverdicts
  rw [← @isSome_declarationAt g source root s hs, hd]
  rfl

theorem mem_declarationsWhere_iff {ok : Site → Bool} {d : Declaration} :
    d ∈ g.declarationsWhere source root ok ↔
      ∃ s ∈ root.sites, ok s = true ∧ g.declarationAt source root s = some d := by
  simp only [declarationsWhere, List.mem_filterMap, List.mem_filter]
  constructor
  · rintro ⟨s, ⟨hs, hok⟩, hd⟩
    obtain ⟨c, hc, rfl⟩ := List.mem_map.mp hs
    exact ⟨_, (mem_candidates_iff.mp hc).1, hok, hd⟩
  · rintro ⟨s, hs, hok, hd⟩
    obtain ⟨rule, _, _, hrule, _⟩ := exists_place_of_declarationAt hs hd
    obtain ⟨c, hc, rfl, _⟩ := exists_candidate_of_rule? hs hrule
    exact ⟨_, ⟨List.mem_map_of_mem hc, hok⟩, hd⟩

section

variable {noOps : Bool} {unit : SourceUnit} {v w : Verdict} {above : List Verdict}

theorem classesAbove_of_enclosingClass (hs : s ∈ root.sites) (ht : t ∈ root.sites)
    (h : (g.enclosingClass source root s).map (·.number) = some t.number) :
    g.classesAbove s = t :: g.classesAbove t := by
  obtain ⟨r, hr, hnumber⟩ := Option.map_eq_some_iff.mp h
  have hmem : r ∈ root.sites :=
    mem_sites_of_mem_above hs (exists_placed_of_enclosingClass hr).1
  obtain rfl := eq_of_number_eq hmem ht hnumber
  exact classesAbove_of_head? (by rw [← enclosingClass_eq hs, hr])

/-- **One step down**: a verdict on a member is about a site with this nearest class. -/
theorem IsAbout.exists_child (h : g.NestingRule source root unit)
    (habout : g.IsAbout source root noOps ⟨v, above⟩ s) (hw : w ∈ v.children) :
    ∃ t, g.IsAbout source root noOps ⟨w, v :: above⟩ t := by
  obtain ⟨hs, hverdicts⟩ := habout
  obtain ⟨⟨d, hd, hv⟩, _⟩ := List.forall₂_cons.mp hverdicts
  rcases classify_cases hv with ⟨_, _, rfl⟩ | ⟨ms, vs, hk, hm, hvs, rfl⟩
  · cases hw
  obtain ⟨m, hmem, hmw⟩ := exists_rel_of_mem_right hvs hw
  have hmembers := h.members s hs d hd
  rw [hm, if_pos hk, Option.some.injEq] at hmembers
  obtain ⟨t, ht, hok, hdt⟩ := mem_declarationsWhere_iff.mp (hmembers ▸ hmem)
  have habove := classesAbove_of_enclosingClass ht hs (beq_iff_eq.mp hok)
  refine ⟨t, ht, .cons ⟨m, hdt, hmw⟩ ?_⟩
  rw [habove]
  exact hverdicts

/-- **One step up**: what has a given nearest class is judged among the members of that class. -/
theorem IsAbout.exists_member (h : g.NestingRule source root unit)
    (habout : g.IsAbout source root noOps ⟨v, above⟩ t) (hs : s ∈ root.sites)
    (habove : g.classesAbove s = t :: g.classesAbove t) {m : Declaration}
    (hm : g.declarationAt source root s = some m) :
    ∃ w ∈ v.children, g.IsAbout source root noOps ⟨w, v :: above⟩ s := by
  obtain ⟨ht, hverdicts⟩ := habout
  obtain ⟨⟨d, hd, hv⟩, _⟩ := List.forall₂_cons.mp hverdicts
  obtain ⟨_, c, hc, hclass⟩ := exists_declarationAt_of_mem_classesAbove source hs
    (habove ▸ List.mem_cons_self : t ∈ g.classesAbove s)
  obtain rfl := Option.some.inj (hd.symm.trans hc)
  have hmember : m ∈ g.declarationsWhere source root fun r =>
      (g.enclosingClass source root r).map (·.number) == some t.number := by
    refine mem_declarationsWhere_iff.mpr ⟨s, hs, ?_, hm⟩
    rw [enclosingClass_eq hs, habove]
    simp
  have hmembers := h.members t ht d hd
  rw [if_pos hclass] at hmembers
  rcases classify_cases hv with ⟨_, hnone, _⟩ | ⟨ms, vs, _, hms, hvs, rfl⟩
  · cases hnone.symm.trans hmembers
  · obtain rfl := Option.some.inj (hms.symm.trans hmembers)
    obtain ⟨w, hw, hmw⟩ := exists_rel_of_mem_left hvs hmember
    refine ⟨w, hw, hs, .cons ⟨m, hm, hmw⟩ ?_⟩
    rw [habove]
    exact hverdicts

/-- Every place nested in one that is about a site is about a site. -/
theorem exists_site_of_isAbout (h : g.NestingRule source root unit)
    (habout : g.IsAbout source root noOps ⟨v, above⟩ s) :
    ∀ spot ∈ Verdict.spots above v, ∃ t, g.IsAbout source root noOps spot t := by
  induction v using Verdict.induction generalizing above s with
  | step v ih =>
    intro spot hspot
    rcases Verdict.mem_spots_iff.mp hspot with rfl | ⟨w, hw, hspot⟩
    · exact ⟨s, habout⟩
    · obtain ⟨t, ht⟩ := habout.exists_child h hw
      exact ih w hw ht spot hspot

/-! ## Whole reports -/

/-- **Every place in a report is about a site.** -/
theorem exists_site_of_mem_spots (h : g.NestingRule source root unit) :
    ∀ spot ∈ (unitReport noOps unit).report.spots, ∃ s, g.IsAbout source root noOps spot s := by
  intro spot hspot
  obtain ⟨v, hv, hspot⟩ := Report.mem_spots_iff.mp hspot
  obtain ⟨d, hd, hdv⟩ := mem_verdicts_iff.mp hv
  rw [h.top] at hd
  obtain ⟨s, hs, htop, hds⟩ := mem_declarationsWhere_iff.mp hd
  have habove : g.classesAbove s = [] := by
    rwa [enclosingClass_eq hs, Option.isNone_iff_eq_none, List.head?_eq_none_iff] at htop
  refine exists_site_of_isAbout h (s := s) ⟨hs, .cons ⟨d, hds, hdv⟩ ?_⟩ spot hspot
  rw [habove]
  exact .nil

/-- **Every site with a declaration has a place in the report.** -/
theorem exists_spot_of_declarationAt (h : g.NestingRule source root unit)
    (hwf : ∀ d ∈ Declaration.walkAll unit.declarations, d.WellFormed) (hs : s ∈ root.sites)
    {d : Declaration} (hd : g.declarationAt source root s = some d) :
    ∃ spot ∈ (unitReport noOps unit).report.spots, g.IsAbout source root noOps spot s := by
  -- By the number of classes above: the nearest one has its place, and the site one below it.
  obtain ⟨n, hn⟩ : ∃ n, (g.classesAbove s).length = n := ⟨_, rfl⟩
  induction n generalizing s d with
  | zero =>
    have habove := List.length_eq_zero_iff.mp hn
    have htop : d ∈ unit.declarations := by
      rw [h.top]
      refine mem_declarationsWhere_iff.mpr ⟨s, hs, ?_, hd⟩
      rw [enclosingClass_eq hs, habove]
      rfl
    obtain ⟨v, hv⟩ := @exists_classify_of_wellFormed noOps _ hwf d htop
    refine ⟨⟨v, []⟩, Report.mem_spots_iff.mpr ⟨v, mem_verdicts_iff.mpr ⟨d, htop, hv⟩, ?_⟩, hs,
      .cons ⟨d, hd, hv⟩ ?_⟩
    · exact Verdict.mem_spots_iff.mpr (Or.inl rfl)
    · rw [habove]
      exact .nil
  | succ n ih =>
    obtain ⟨t, rest, hcons⟩ := List.exists_cons_of_length_eq_add_one hn
    have habove : g.classesAbove s = t :: g.classesAbove t :=
      classesAbove_of_head? (by rw [hcons]; rfl)
    obtain ⟨ht, c, hc, _⟩ := exists_declarationAt_of_mem_classesAbove source hs
      (habove ▸ List.mem_cons_self : t ∈ g.classesAbove s)
    obtain ⟨⟨v, around⟩, hspot, habout⟩ := ih ht hc (by simpa [habove] using hn)
    obtain ⟨w, hw, hwabout⟩ := habout.exists_member h hs habove hd
    exact ⟨_, Report.mem_spots_of_mem_children hspot hw, hwabout⟩

end

end Grammar

end Hollow
