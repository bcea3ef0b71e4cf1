import Hollow.Locate
import Hollow.Proofs.Reports

/-!
# The meaning of position lookup

The lookup prunes verdicts whose span does not contain the position, prefers the last child with
an answer, falls back to the verdict itself, and only then looks for bodies without extent.  All
this amounts to two searches for a last element in the depth-first order of the report.

* `Spot`, `Report.spots` — the verdicts of a report, each with the verdicts around it.
* `Spot.Claims` — an empty verdict that, like all verdicts around it, spans the position.
* `below_prefix_of_spots_eq` — what is nested in a spot follows it directly.
* `innermost_eq` — the recursive search finds the last claimant.
* `locateEmpty_eq_last` — the contract of `Report.locateEmpty`.
-/

namespace Hollow

/-! ## Last elements and splits of lists -/

theorem getLast?_filter_append {α : Type} (P : α → Prop) [DecidablePred P] (l m : List α) :
    ((l ++ m).filter P).getLast? = (m.filter P).getLast?.or (l.filter P).getLast? := by
  rw [List.filter_append, List.getLast?_append]

theorem getLast?_filter_cons {α : Type} (P : α → Prop) [DecidablePred P] (a : α) (l : List α) :
    ((a :: l).filter P).getLast? = (l.filter P).getLast?.or (if P a then some a else none) := by
  rw [List.filter_cons]
  split_ifs <;> simp_all [List.getLast?_cons]

/-- The last element with a property is followed by elements without it. -/
theorem exists_split_of_getLast?_filter {α : Type} {P : α → Prop} [DecidablePred P] {l : List α}
    {a : α} (h : (l.filter P).getLast? = some a) :
    ∃ front back, l = front ++ a :: back ∧ P a ∧ ∀ x ∈ back, ¬P x := by
  obtain ⟨init, hinit⟩ := List.getLast?_eq_some_iff.mp h
  obtain ⟨l₁, l₂, rfl, _, hl₂⟩ := List.filter_eq_append_iff.mp hinit
  obtain ⟨l₃, back, rfl, _, ha, hback⟩ := List.filter_eq_cons_iff.mp hl₂
  exact ⟨l₁ ++ l₃, back, by simp, by simpa using ha, by simpa using hback⟩

/-- An element of a concatenation lies in one of the parts, and what follows it there follows it
in the whole. -/
theorem exists_split_of_flatMap_eq {α β : Type} {f : α → List β} {l : List α} {b : β}
    {front back : List β} (h : l.flatMap f = front ++ b :: back) :
    ∃ x ∈ l, ∃ front' back', f x = front' ++ b :: back' ∧ back' <+: back := by
  induction l generalizing front with
  | nil => simp at h
  | cons x l ih =>
    have hlater : ∀ front', l.flatMap f = front' ++ b :: back →
        ∃ y ∈ x :: l, ∃ front'' back', f y = front'' ++ b :: back' ∧ back' <+: back := by
      intro front' h'
      obtain ⟨y, hy, hsplit⟩ := ih h'
      exact ⟨y, List.mem_cons_of_mem _ hy, hsplit⟩
    rw [List.flatMap_cons] at h
    rcases List.append_eq_append_iff.mp h with ⟨mid, _, hmid⟩ | ⟨mid, hx, hmid⟩
    · exact hlater mid hmid
    · rcases List.cons_eq_append_iff.mp hmid with ⟨rfl, hl⟩ | ⟨mid', rfl, rfl⟩
      · exact hlater [] hl
      · exact ⟨x, List.mem_cons_self, front, mid', hx, List.prefix_append _ _⟩

/-! ## Verdicts and what is around them -/

/-- A verdict in its report. -/
structure Spot where
  verdict : Verdict
  /-- The verdicts that it is nested in, nearest first. -/
  ancestors : List Verdict

namespace Verdict

mutual

/-- A verdict and all nested verdicts, depth-first, below given ones. -/
def spots (above : List Verdict) : Verdict → List Spot
  | ⟨declaration, isEmpty, reason, children⟩ =>
    let v := ⟨declaration, isEmpty, reason, children⟩
    ⟨v, above⟩ :: spotsAll (v :: above) children

/-- Several verdicts with all that is nested in them, depth-first, below given ones. -/
def spotsAll (above : List Verdict) : List Verdict → List Spot
  | [] => []
  | v :: vs => spots above v ++ spotsAll above vs

end

theorem spots_eq (above : List Verdict) (v : Verdict) :
    spots above v = ⟨v, above⟩ :: spotsAll (v :: above) v.children := by
  cases v; rfl

theorem spotsAll_eq_flatMap (above vs : List Verdict) :
    spotsAll above vs = vs.flatMap (spots above) := by
  induction vs with
  | nil => rfl
  | cons v vs ih => rw [spotsAll, ih, List.flatMap_cons]

theorem mem_spots_iff {above : List Verdict} {v : Verdict} {s : Spot} :
    s ∈ spots above v ↔ s = ⟨v, above⟩ ∨ ∃ c ∈ v.children, s ∈ spots (v :: above) c := by
  rw [spots_eq, List.mem_cons, spotsAll_eq_flatMap, List.mem_flatMap]

theorem map_verdict_spots (above : List Verdict) (v : Verdict) :
    (spots above v).map (·.verdict) = v.walk := by
  induction v using Verdict.induction generalizing above with
  | step v ih =>
    rw [spots_eq, v.walk_eq, List.map_cons, spotsAll_eq_flatMap, List.map_flatMap]
    exact congrArg _ (List.flatMap_congr fun c hc => ih c hc _)

end Verdict

/-- All verdicts of a report, depth-first, each with the verdicts around it. -/
def Report.spots (r : Report) : List Spot := Verdict.spotsAll [] r.verdicts

theorem Report.map_verdict_spots (r : Report) : r.spots.map (·.verdict) = r.allVerdicts := by
  rw [spots, allVerdicts, Verdict.spotsAll_eq_flatMap, Verdict.walkAll_eq_flatMap, List.map_flatMap]
  exact List.flatMap_congr fun v _ => Verdict.map_verdict_spots [] v

theorem Report.mem_spots_iff {r : Report} {s : Spot} :
    s ∈ r.spots ↔ ∃ v ∈ r.verdicts, s ∈ Verdict.spots [] v := by
  rw [spots, Verdict.spotsAll_eq_flatMap, List.mem_flatMap]

theorem Report.verdict_mem_allVerdicts {r : Report} {s : Spot} (hs : s ∈ r.spots) :
    s.verdict ∈ r.allVerdicts :=
  r.map_verdict_spots ▸ List.mem_map_of_mem hs

namespace Spot

/-- The spots nested in a spot. -/
def below (s : Spot) : List Spot :=
  Verdict.spotsAll (s.verdict :: s.ancestors) s.verdict.children

end Spot

/-- What is nested in a spot follows it directly. -/
theorem Verdict.below_prefix_of_spots_eq {above : List Verdict} {v : Verdict} {s : Spot}
    {front back : List Spot} (h : spots above v = front ++ s :: back) : s.below <+: back := by
  induction v using Verdict.induction generalizing above front back with
  | step v ih =>
    rw [spots_eq] at h
    cases front with
    | nil =>
      obtain ⟨rfl, rfl⟩ := List.cons.inj h
      exact List.prefix_rfl
    | cons t front =>
      have h := (List.cons.inj h).2
      rw [spotsAll_eq_flatMap] at h
      obtain ⟨c, hc, front', back', hsplit, hback⟩ := exists_split_of_flatMap_eq h
      exact (ih c hc hsplit).trans hback

theorem Report.below_prefix_of_spots_eq {r : Report} {s : Spot} {front back : List Spot}
    (h : r.spots = front ++ s :: back) : s.below <+: back := by
  rw [spots, Verdict.spotsAll_eq_flatMap] at h
  obtain ⟨v, _, front', back', hsplit, hback⟩ := exists_split_of_flatMap_eq h
  exact (Verdict.below_prefix_of_spots_eq hsplit).trans hback

/-- A report goes on to what is nested in its spots. -/
theorem Report.mem_spots_of_mem_below {r : Report} {s t : Spot} (hs : s ∈ r.spots)
    (ht : t ∈ s.below) : t ∈ r.spots := by
  obtain ⟨front, back, hsplit⟩ := List.append_of_mem hs
  rw [hsplit]
  exact List.mem_append_right _
    (List.mem_cons_of_mem _ ((below_prefix_of_spots_eq hsplit).subset ht))

theorem Report.mem_spots_of_mem_children {r : Report} {s : Spot} {v : Verdict} (hs : s ∈ r.spots)
    (hv : v ∈ s.verdict.children) : ⟨v, s.verdict :: s.ancestors⟩ ∈ r.spots := by
  refine mem_spots_of_mem_below hs ?_
  rw [Spot.below, Verdict.spotsAll_eq_flatMap]
  exact List.mem_flatMap.mpr ⟨v, hv, Verdict.mem_spots_iff.mpr (Or.inl rfl)⟩

/-! ## Containment -/

namespace Spot

/-- The verdict is empty, and it and all verdicts around it span the position. -/
def Claims (p : Position) (s : Spot) : Prop :=
  s.verdict.isEmpty = true ∧
    ∀ v ∈ s.verdict :: s.ancestors, v.declaration.effectiveSpan.contains p = true

instance (p : Position) : DecidablePred (Claims p) := fun s =>
  inferInstanceAs (Decidable (s.verdict.isEmpty = true ∧ _))

end Spot

namespace Verdict

/-- The verdicts around every spot of a walk include those that the walk began below. -/
theorem mem_ancestors_of_mem_spots {above : List Verdict} {v : Verdict} {s : Spot}
    (hs : s ∈ spots above v) : ∀ a ∈ above, a ∈ s.ancestors := by
  induction v using Verdict.induction generalizing above with
  | step v ih =>
    rcases mem_spots_iff.mp hs with rfl | ⟨c, hc, hs⟩
    · exact fun a ha => ha
    · exact fun a ha => ih c hc hs a (List.mem_cons_of_mem _ ha)

/-- Nothing nested in a verdict claims a position outside of the verdict's span. -/
theorem not_claims_of_not_contains {p : Position} {above : List Verdict} {v : Verdict}
    (hp : ¬v.declaration.effectiveSpan.contains p = true) : ∀ s ∈ spots above v, ¬s.Claims p := by
  intro s hs hclaim
  rcases mem_spots_iff.mp hs with rfl | ⟨c, _, hs⟩
  · exact hp (hclaim.2 v List.mem_cons_self)
  · have hv := mem_ancestors_of_mem_spots hs v List.mem_cons_self
    exact hp (hclaim.2 v (List.mem_cons_of_mem _ hv))

theorem innermost_unfold (p : Position) (v : Verdict) :
    innermost p v =
      if v.declaration.effectiveSpan.contains p then
        (innermostLast p v.children).or (if v.isEmpty then some v else none)
      else none := by
  cases v
  rw [innermost]

theorem innermostLast_of_forall_mem {p : Position} {above vs : List Verdict}
    (h : ∀ v ∈ vs, innermost p v = ((spots above v).filter (Spot.Claims p)).getLast?.map (·.verdict)) :
    innermostLast p vs = ((spotsAll above vs).filter (Spot.Claims p)).getLast?.map (·.verdict) := by
  induction vs with
  | nil => rfl
  | cons v vs ih =>
    rw [innermostLast, spotsAll, getLast?_filter_append, Option.map_or, h v List.mem_cons_self,
      ih fun w hw => h w (List.mem_cons_of_mem _ hw)]

/-- **The recursive search finds the last claimant**, where all that lies around spans the
position. -/
theorem innermost_eq {p : Position} {above : List Verdict} (v : Verdict)
    (habove : ∀ a ∈ above, a.declaration.effectiveSpan.contains p = true) :
    innermost p v = ((spots above v).filter (Spot.Claims p)).getLast?.map (·.verdict) := by
  induction v using Verdict.induction generalizing above with
  | step v ih =>
    rw [innermost_unfold]
    by_cases hp : v.declaration.effectiveSpan.contains p = true
    · have haround : ∀ a ∈ v :: above, a.declaration.effectiveSpan.contains p = true :=
        List.forall_mem_cons.mpr ⟨hp, habove⟩
      have hself : Spot.Claims p ⟨v, above⟩ ↔ v.isEmpty = true := and_iff_left haround
      rw [if_pos hp, innermostLast_of_forall_mem fun c hc => ih c hc haround, spots_eq,
        getLast?_filter_cons, Option.map_or]
      simp only [hself]
      split_ifs <;> rfl
    · have hnone : (spots above v).filter (Spot.Claims p) = [] :=
        List.filter_eq_nil_iff.mpr fun s hs => by
          simpa using not_claims_of_not_contains hp s hs
      rw [if_neg hp, hnone]
      rfl

/-! ## Bodies without extent -/

/-- The verdict is empty, its body covers no byte, and the position is where the body would be
typed: behind it on the same line, or anywhere on the next one. -/
def Awaits (p : Position) (v : Verdict) : Prop :=
  v.isEmpty = true ∧ ∃ body ∈ v.declaration.bodySpan, body.endByte ≤ body.startByte ∧
    (p.line = body.endLine + 1 ∨ p.line = body.endLine ∧ body.endCol < p.col)

instance (p : Position) : DecidablePred (Awaits p) := fun v =>
  inferInstanceAs (Decidable (v.isEmpty = true ∧ ∃ body ∈ v.declaration.bodySpan, _))

theorem claimsNext_eq (p : Position) (v : Verdict) : v.claimsNext p = decide (v.Awaits p) := by
  rw [Bool.eq_iff_iff, decide_eq_true_iff]
  unfold claimsNext Awaits
  cases hb : v.declaration.bodySpan with
  | none => simp
  | some body => simp [Span.isEmpty, Span.length, Nat.sub_eq_zero_iff_le]

end Verdict

/-! ## The contract -/

namespace Report

/-- The place that a position belongs to: the last claimant, or else the last verdict that waits
for its body there. -/
def located? (r : Report) (p : Position) : Option Spot :=
  (r.spots.filter (Spot.Claims p)).getLast?.or (r.spots.filter (·.verdict.Awaits p)).getLast?

theorem locateEmpty_eq (r : Report) (p : Position) :
    r.locateEmpty p = (r.located? p).map (·.verdict) := by
  have hclaim : Verdict.innermostLast p r.verdicts =
      (r.spots.filter (Spot.Claims p)).getLast?.map (·.verdict) :=
    Verdict.innermostLast_of_forall_mem fun v _ => Verdict.innermost_eq v (by simp)
  have hwait : (r.allVerdicts.filter (·.claimsNext p)).getLast? =
      (r.spots.filter (·.verdict.Awaits p)).getLast?.map (·.verdict) := by
    rw [← r.map_verdict_spots, List.filter_map, List.getLast?_map]
    simp only [Verdict.claimsNext_eq, Function.comp_def]
  rw [locateEmpty, located?, Option.map_or, hclaim, hwait]

theorem mem_spots_of_located? {r : Report} {p : Position} {s : Spot}
    (h : r.located? p = some s) : s ∈ r.spots ∧ s.verdict.isEmpty = true := by
  rcases Option.or_eq_some_iff.mp h with hs | ⟨_, hs⟩
  · have hmem := List.mem_filter.mp (List.mem_of_getLast? hs)
    exact ⟨hmem.1, (of_decide_eq_true hmem.2).1⟩
  · have hmem := List.mem_filter.mp (List.mem_of_getLast? hs)
    exact ⟨hmem.1, (of_decide_eq_true hmem.2).1⟩

/-- Nothing nested in the place that was found claims the position. -/
theorem not_claims_of_mem_below {r : Report} {p : Position} {s : Spot}
    (h : r.located? p = some s) : ∀ t ∈ s.below, ¬t.Claims p := by
  intro t ht
  rcases Option.or_eq_some_iff.mp h with hs | ⟨hnone, _⟩
  · obtain ⟨front, back, hsplit, _, hback⟩ := exists_split_of_getLast?_filter hs
    exact hback t ((below_prefix_of_spots_eq hsplit).subset ht)
  · have hmem : t ∈ r.spots := mem_spots_of_mem_below (mem_spots_of_located? h).1 ht
    have hnil := List.filter_eq_nil_iff.mp (List.getLast?_eq_none_iff.mp hnone)
    simpa using hnil t hmem

/-- An empty verdict of a report on a unit has something to judge. -/
theorem isApplicable_of_isEmpty {noOps : Bool} {unit : SourceUnit} {v : Verdict}
    (hv : v ∈ (unitReport noOps unit).report.allVerdicts) (he : v.isEmpty = true) :
    v.isApplicable = true := by
  obtain ⟨d, _, hd⟩ := exists_classify_of_mem_allVerdicts hv
  have hreason := ((classify_consistent hd).mp he).2
  simpa [Verdict.isApplicable] using hreason

/-- **The meaning of position lookup.**  The spots of a report are its verdicts in depth-first
order.  The lookup answers with the last verdict that claims the position together with all that
is around it; failing that, with the last one that waits for its body there; else with none.  So
nothing nested in the answer claims the position, and in a report on a unit the answer always has
something to judge. -/
theorem locateEmpty_eq_last (r : Report) (p : Position) :
    r.spots.map (·.verdict) = r.allVerdicts ∧
      r.locateEmpty p = (r.located? p).map (·.verdict) ∧
      (∀ s, r.located? p = some s → ∀ t ∈ s.below, ¬t.Claims p) ∧
      ∀ options unit u, classifyUnit options unit = .ok u →
        ∀ v, u.report.locateEmpty p = some v → v.isApplicable = true := by
  refine ⟨r.map_verdict_spots, r.locateEmpty_eq p, fun s => not_claims_of_mem_below, ?_⟩
  intro options unit u hu v hv
  obtain ⟨_, rfl⟩ := classifyUnit_eq_ok_iff.mp hu
  rw [locateEmpty_eq, Option.map_eq_some_iff] at hv
  obtain ⟨s, hs, rfl⟩ := hv
  obtain ⟨hmem, he⟩ := mem_spots_of_located? hs
  have hv : s.verdict ∈ (unitReport options.noOpsAreEmpty unit).report.allVerdicts := by
    rw [← map_verdict_spots]
    exact List.mem_map_of_mem hmem
  exact isApplicable_of_isEmpty hv he

/-- A class over three lines with an empty method on the second of them. -/
def nestedUnit : SourceUnit :=
  ⟨"shape.cpp", "cpp",
    [⟨0, .classLike, some "Shape", ⟨0, 40, 1, 1, 3, 2⟩, some ⟨some ⟨12, 40, 1, 13, 3, 2⟩, []⟩, some
      [⟨1, .method, some "draw", ⟨18, 31, 2, 5, 2, 18⟩, some ⟨some ⟨29, 31, 2, 16, 2, 18⟩, []⟩,
        none⟩]⟩],
    [], false⟩

theorem nestedUnit_locateEmpty :
    ∃ u, classifyUnit {} nestedUnit = .ok u ∧
      (u.report.locateEmpty ⟨2, 17⟩).map (·.declaration.id) = some 1 ∧
      u.report.locateEmpty ⟨2, 17⟩ = (u.report.located? ⟨2, 17⟩).map (·.verdict) ∧
      ∀ v, u.report.locateEmpty ⟨2, 17⟩ = some v → v.isApplicable = true :=
  ⟨_, rfl, rfl, (locateEmpty_eq_last _ _).2.1,
    (locateEmpty_eq_last ⟨[]⟩ _).2.2.2 {} nestedUnit _ rfl⟩

end Report

end Hollow
