import Hollow.Proofs.Conservation
import Hollow.Proofs.Cursor
import Hollow.Proofs.Paths

/-!
# Taking filler as empty

The option that sets filler aside is read in one place, inside a single body.  Through classes,
reports, counts and position lookup it acts in one direction: what is empty without it is empty
with it, and nothing else changes than what has filler in it.

* `Declaration.HasFiller` — a callable whose body holds filler.
* `Loosened` — the verdicts on one declaration without the option and with it;
  `loosened_of_classify`.
* `Entry.Loosened` — the same for an entry of a report, at every place below it.
* `Report.spots_forall₂` — two reports with related verdicts have related spots.
* `filler_option_monotone` — the contract for whole units.
-/

namespace Hollow

/-! ## One declaration -/

/-- A callable whose body holds filler. -/
def Declaration.HasFiller (d : Declaration) : Prop :=
  d.kind.isCallable = true ∧
    ∃ body, d.body = some body ∧ ∃ s ∈ body.statements, s.category = .noOp

theorem Category.isSignificant_false_of_true {c : Category} (h : c.isSignificant true = true) :
    c.isSignificant false = true := by
  revert h
  cases c <;> decide

theorem evaluate_of_no_filler {xs : List Statement} (h : ∀ s ∈ xs, s.category ≠ .noOp) :
    evaluate true xs = evaluate false xs := by
  have hsame : xs.any (·.category.isSignificant true) = xs.any (·.category.isSignificant false) := by
    induction xs with
    | nil => rfl
    | cons x xs ih =>
      rw [List.forall_mem_cons] at h
      have hx : (x.category == .noOp) = false := beq_eq_false_iff_ne.mpr h.1
      rw [List.any_cons, List.any_cons, ih h.2]
      simp [Category.isSignificant, hx]
  unfold evaluate
  rw [hsame]

theorem hasContent_false_of_true {d : Declaration} (h : d.HasContent true) :
    d.HasContent false := by
  obtain ⟨hk, body, hb, hcontent⟩ := h
  refine ⟨hk, body, hb, ?_⟩
  unfold evaluate at hcontent ⊢
  split_ifs at hcontent with hnil hany
  have hany' : (body.statements.any fun s => s.category.isSignificant false) = true := by
    rw [List.any_eq_true] at hany ⊢
    obtain ⟨s, hs, hsig⟩ := hany
    exact ⟨s, hs, Category.isSignificant_false_of_true hsig⟩
  rw [if_neg hnil, if_pos hany']

theorem classifyAll_congr {ds : List Declaration}
    (h : ∀ d ∈ ds, classify true d = classify false d) :
    classifyAll true ds = classifyAll false ds := by
  induction ds with
  | nil => rfl
  | cons d ds ih =>
    rw [List.forall_mem_cons] at h
    rw [classifyAll, classifyAll, h.1, ih h.2]

/-- Where there is no filler the option makes no difference. -/
theorem classify_of_no_filler (d : Declaration) (h : ∀ c ∈ d.walk, ¬c.HasFiller) :
    classify true d = classify false d := by
  induction d using Declaration.induction with
  | step d ih =>
    have hmembers : d.members.map (classifyAll true) = d.members.map (classifyAll false) := by
      cases hm : d.members with
      | none => rfl
      | some ms =>
        rw [Declaration.memberList_some hm] at ih
        have hms : classifyAll true ms = classifyAll false ms := by
          apply classifyAll_congr
          intro m hmem
          refine ih m hmem fun c hc => h c (Declaration.mem_walk_iff.mpr (Or.inr ⟨m, ?_, hc⟩))
          rwa [Declaration.memberList_some hm]
        rw [Option.map_some, Option.map_some, hms]
    rw [classify_eq, classify_eq, hmembers]
    by_cases hk : d.kind.isCallable = true
    · have hbody : bodyOutcome true d.body = bodyOutcome false d.body := by
        cases hb : d.body with
        | none => rfl
        | some body =>
          apply evaluate_of_no_filler
          intro s hs hno
          exact h d d.self_mem_walk ⟨hk, body, hb, s, hs, hno⟩
      rw [hbody]
    · rw [if_neg hk, if_neg hk]

/-- The verdicts on one declaration, first with filler as content and then with filler as empty. -/
structure Loosened (c : Declaration) (a b : Verdict) : Prop where
  strict : a.declaration = c.ref
  lenient : b.declaration = c.ref
  isApplicable : b.isApplicable = a.isApplicable
  isEmpty : a.isEmpty = true → b.isEmpty = true
  /-- Only a callable with filler, or a class around one, is judged differently. -/
  cause : a ≠ b → c.HasFiller ∨ c.kind = .classLike ∧ ∃ e ∈ c.walk, e.HasFiller

theorem loosened_of_classify {c : Declaration} {a b : Verdict} (ha : classify false c = .ok a)
    (hb : classify true c = .ok b) : Loosened c a b where
  strict := classify_declaration ha
  lenient := classify_declaration hb
  isApplicable := by
    have hno : b.reason = .noBody ↔ a.reason = .noBody := by
      rw [reason_eq_noBody_iff hb, reason_eq_noBody_iff ha]
    unfold Verdict.isApplicable
    rw [Bool.eq_iff_iff, bne_iff_ne, bne_iff_ne, ne_eq, ne_eq, hno]
  isEmpty := by
    intro he
    rw [(closedForm_of_classify ha).isEmpty] at he
    rw [(closedForm_of_classify hb).isEmpty]
    refine ⟨?_, he.2⟩
    rintro ⟨e, hmem, hcontent⟩
    exact he.1 ⟨e, hmem, hasContent_false_of_true hcontent⟩
  cause := by
    intro hne
    -- If nothing had filler, the two verdicts would be the same.
    have hfiller : ∃ e ∈ c.walk, e.HasFiller := by
      by_contra hnone
      push Not at hnone
      have hsame := classify_of_no_filler c hnone
      rw [ha, hb] at hsame
      exact hne (Except.ok.inj hsame).symm
    rcases classify_cases ha with ⟨_, hm, _⟩ | ⟨_, _, hk, _, _, _⟩
    · rw [c.walk_eq, Declaration.memberList_none hm] at hfiller
      simp only [List.flatMap_nil, List.mem_singleton, exists_eq_left] at hfiller
      exact Or.inl hfiller
    · exact Or.inr ⟨hk, hfiller⟩

/-! ## Entries -/

/-- At a place, either nothing is nested in any of the three, or a declaration with a verdict in
each of the other two. -/
inductive AtPlace (R : Declaration → Verdict → Verdict → Prop) :
    Option Declaration → Option Verdict → Option Verdict → Prop
  | nothing : AtPlace R none none none
  | judged {c : Declaration} {a b : Verdict} (h : R c a b) : AtPlace R (some c) (some a) (some b)

/-- The entries for one declaration, first with filler as content and then with filler as empty. -/
inductive Entry.Loosened (d : Declaration) : Entry → Entry → Prop
  | failed (fault : Fault) : Entry.Loosened d (.failed d.ref fault) (.failed d.ref fault)
  | classified {v w : Verdict}
      (h : ∀ path, AtPlace Hollow.Loosened (d.nested? path) (v.nested? path) (w.nested? path)) :
      Entry.Loosened d (.classified v) (.classified w)

theorem atPlace_of_classify {d : Declaration} {v w : Verdict} (hv : classify false d = .ok v)
    (hw : classify true d = .ok w) (path : List Nat) :
    AtPlace Loosened (d.nested? path) (v.nested? path) (w.nested? path) := by
  have hvp := nested?_classify hv path
  have hwp := nested?_classify hw path
  generalize d.nested? path = c at hvp hwp ⊢
  generalize v.nested? path = a at hvp ⊢
  generalize w.nested? path = b at hwp ⊢
  cases hvp with
  | none =>
    cases hwp
    exact .nothing
  | some ha =>
    cases hwp with
    | some hb => exact .judged (loosened_of_classify ha hb)

/-- The option has no say in failures. -/
theorem classify_both (d : Declaration) :
    (∃ fault, classify false d = .error fault ∧ classify true d = .error fault) ∨
      ∃ v w, classify false d = .ok v ∧ classify true d = .ok w := by
  have hsame : refusal? (classify false d) = refusal? (classify true d) := by
    rw [refusal?_classify, refusal?_classify]
  cases hv : classify false d with
  | error fault =>
    rw [hv] at hsame
    exact Or.inl ⟨fault, rfl, refusal?_eq_some_iff.mp hsame.symm⟩
  | ok v =>
    rw [hv] at hsame
    obtain ⟨w, hw⟩ := refusal?_eq_none_iff.mp hsame.symm
    exact Or.inr ⟨v, w, rfl, hw⟩

theorem loosened_ofDeclaration (d : Declaration) :
    Entry.Loosened d (Entry.ofDeclaration false d) (Entry.ofDeclaration true d) := by
  rcases classify_both d with ⟨fault, h₀, h₁⟩ | ⟨v, w, h₀, h₁⟩
  · rw [Entry.ofDeclaration_error h₀, Entry.ofDeclaration_error h₁]
    exact .failed fault
  · rw [Entry.ofDeclaration_ok h₀, Entry.ofDeclaration_ok h₁]
    exact .classified (atPlace_of_classify h₀ h₁)

/-! ## Reports side by side -/

section

variable {R : Verdict → Verdict → Prop}

/-- Verdicts are related together with all that is around them. -/
def Spot.Rel (R : Verdict → Verdict → Prop) (s t : Spot) : Prop :=
  List.Forall₂ R (s.verdict :: s.ancestors) (t.verdict :: t.ancestors)

theorem Verdict.spots_forall₂ (hR : ∀ a b, R a b → List.Forall₂ R a.children b.children)
    {v w : Verdict} (hvw : R v w) {above above' : List Verdict}
    (habove : List.Forall₂ R above above') :
    List.Forall₂ (Spot.Rel R) (spots above v) (spots above' w) := by
  induction v using Verdict.induction generalizing w above above' with
  | step v ih =>
    rw [spots_eq, spots_eq, spotsAll_eq_flatMap, spotsAll_eq_flatMap]
    have haround : List.Forall₂ R (v :: above) (w :: above') := .cons hvw habove
    refine .cons haround ?_
    have hboth := (List.forall₂_and_left _ _).mpr ⟨fun c hc => @ih c hc, hR v w hvw⟩
    exact List.rel_flatMap hboth fun c c' hcc' => hcc'.1 hcc'.2 haround

theorem Report.spots_forall₂ (hR : ∀ a b, R a b → List.Forall₂ R a.children b.children)
    {r r' : Report} (h : List.Forall₂ R r.verdicts r'.verdicts) :
    List.Forall₂ (Spot.Rel R) r.spots r'.spots := by
  unfold Report.spots
  rw [Verdict.spotsAll_eq_flatMap, Verdict.spotsAll_eq_flatMap]
  exact List.rel_flatMap h fun v w hvw => Verdict.spots_forall₂ hR hvw .nil

theorem Report.allVerdicts_forall₂ (hR : ∀ a b, R a b → List.Forall₂ R a.children b.children)
    {r r' : Report} (h : List.Forall₂ R r.verdicts r'.verdicts) :
    List.Forall₂ R r.allVerdicts r'.allVerdicts := by
  rw [← r.map_verdict_spots, ← r'.map_verdict_spots, List.forall₂_map_left_iff,
    List.forall₂_map_right_iff]
  exact (spots_forall₂ hR h).imp fun s t hst => (List.forall₂_cons.mp hst).1

end

theorem countP_le_of_forall₂ {α β : Type} {R : α → β → Prop} {p : α → Bool} {q : β → Bool}
    {l : List α} {m : List β} (h : List.Forall₂ R l m)
    (hpq : ∀ a b, R a b → p a = true → q b = true) : l.countP p ≤ m.countP q := by
  induction h with
  | nil => exact Nat.le_refl _
  | @cons a b _ _ hab _ ih =>
    rw [List.countP_cons, List.countP_cons]
    have hab := hpq a b hab
    by_cases hp : p a = true
    · rw [if_pos hp, if_pos (hab hp)]
      omega
    · rw [if_neg hp]
      omega

theorem countP_eq_of_forall₂ {α β : Type} {R : α → β → Prop} {p : α → Bool} {q : β → Bool}
    {l : List α} {m : List β} (h : List.Forall₂ R l m) (hpq : ∀ a b, R a b → q b = p a) :
    m.countP q = l.countP p := by
  induction h with
  | nil => rfl
  | @cons a b _ _ hab _ ih => rw [List.countP_cons, List.countP_cons, ih, hpq a b hab]

/-- When the lookup answers at all. -/
theorem Report.isSome_locateEmpty_iff (r : Report) (p : Position) :
    (r.locateEmpty p).isSome = true ↔
      (∃ s ∈ r.spots, s.Claims p) ∨ ∃ s ∈ r.spots, s.verdict.Awaits p := by
  rw [locateEmpty_eq, located?, Option.isSome_map, Option.isSome_or, Bool.or_eq_true,
    List.getLast?_isSome, List.getLast?_isSome]
  simp [List.filter_eq_nil_iff]

/-! ## Units -/

/-- The verdicts on one declaration without the option and with it. -/
def JudgedTwice (a b : Verdict) : Prop :=
  ∃ c, classify false c = .ok a ∧ classify true c = .ok b

theorem JudgedTwice.children {a b : Verdict} (h : JudgedTwice a b) :
    List.Forall₂ JudgedTwice a.children b.children := by
  obtain ⟨c, ha, hb⟩ := h
  have hca := classify_children ha
  have hcb := classify_children hb
  generalize c.memberList = ms at hca hcb
  generalize a.children = vs at hca ⊢
  generalize b.children = ws at hcb ⊢
  induction hca generalizing ws with
  | nil =>
    cases hcb
    exact .nil
  | @cons m v _ _ hv _ ih =>
    cases hcb with
    | cons hw hws => exact .cons ⟨m, hv, hw⟩ (ih _ hws)

theorem verdicts_judgedTwice (unit : SourceUnit) :
    List.Forall₂ JudgedTwice (unitReport false unit).report.verdicts
      (unitReport true unit).report.verdicts := by
  unfold unitReport Report.verdicts
  simp only
  induction unit.declarations with
  | nil => exact .nil
  | cons d ds ih =>
    rw [List.map_cons, List.map_cons]
    rcases classify_both d with ⟨fault, h₀, h₁⟩ | ⟨v, w, h₀, h₁⟩
    · rw [Entry.ofDeclaration_error h₀, Entry.ofDeclaration_error h₁]
      exact ih
    · rw [Entry.ofDeclaration_ok h₀, Entry.ofDeclaration_ok h₁]
      exact .cons ⟨d, h₀, h₁⟩ ih

theorem JudgedTwice.loosened {a b : Verdict} (h : JudgedTwice a b) :
    b.declaration = a.declaration ∧ b.isApplicable = a.isApplicable ∧
      (a.isEmpty = true → b.isEmpty = true) := by
  obtain ⟨c, ha, hb⟩ := h
  have hc := loosened_of_classify ha hb
  exact ⟨hc.lenient.trans hc.strict.symm, hc.isApplicable, hc.isEmpty⟩

section

variable {r r' : Report} (h : List.Forall₂ JudgedTwice r.verdicts r'.verdicts)

include h

/-- What the option does to the counts. -/
theorem summary_of_judgedTwice :
    r'.summary.notApplicable = r.summary.notApplicable ∧
      r'.summary.classified = r.summary.classified ∧ r.summary.empty ≤ r'.summary.empty := by
  have hall := Report.allVerdicts_forall₂ (fun _ _ hab => hab.children) h
  have happlicable : r'.allVerdicts.countP (fun v => !v.isApplicable) =
      r.allVerdicts.countP fun v => !v.isApplicable :=
    countP_eq_of_forall₂ hall fun a b hab => by rw [hab.loosened.2.1]
  have hempty : r.allVerdicts.countP (fun v => v.isApplicable && v.isEmpty) ≤
      r'.allVerdicts.countP fun v => v.isApplicable && v.isEmpty := by
    refine countP_le_of_forall₂ hall fun a b hab hp => ?_
    rw [Bool.and_eq_true] at hp ⊢
    exact ⟨hab.loosened.2.1.trans hp.1, hab.loosened.2.2 hp.2⟩
  have htotal := r.total_summary
  have htotal' := r'.total_summary
  have hlength := hall.length_eq
  simp only [Report.summary_eq, Summary.total, Summary.classified] at htotal htotal' ⊢
  omega

/-- **A position that has an answer keeps one.** -/
theorem locateEmpty_of_judgedTwice (p : Position) (hr : (r.locateEmpty p).isSome = true) :
    (r'.locateEmpty p).isSome = true := by
  have hspots := Report.spots_forall₂ (fun _ _ hab => hab.children) h
  rw [Report.isSome_locateEmpty_iff] at hr ⊢
  rcases hr with ⟨s, hs, hempty, hspan⟩ | ⟨s, hs, hempty, hbody⟩
  · obtain ⟨t, ht, hst⟩ := exists_rel_of_mem_left hspots hs
    refine Or.inl ⟨t, ht, (List.forall₂_cons.mp hst).1.loosened.2.2 hempty, ?_⟩
    intro b hb
    obtain ⟨a, ha, hab⟩ := exists_rel_of_mem_right hst hb
    rw [hab.loosened.1]
    exact hspan a ha
  · obtain ⟨t, ht, hst⟩ := exists_rel_of_mem_left hspots hs
    have hverdict := (List.forall₂_cons.mp hst).1.loosened
    refine Or.inr ⟨t, ht, hverdict.2.2 hempty, ?_⟩
    rw [hverdict.1]
    exact hbody

end

/-- **The option acts in one direction.**  A unit that is judged is judged with filler as content
and with filler as empty.  The two reports fail on the same declarations with the same faults, and
at every place of the others there is a verdict in both or in none; the second is empty wherever the
first is, neither is applicable without the other, and they differ only where there is filler.  So
the counts agree but for declarations that become empty, and a position that has an answer in the
first report has one in the second. -/
theorem filler_option_monotone {options : Options} {unit : SourceUnit} {u : UnitReport}
    (h : classifyUnit options unit = .ok u) :
    ∃ strict lenient,
      classifyUnit { options with noOpsAreEmpty := false } unit = .ok strict ∧
      classifyUnit { options with noOpsAreEmpty := true } unit = .ok lenient ∧
      strict.report.entries.length = unit.declarations.length ∧
      lenient.report.entries.length = unit.declarations.length ∧
      (∀ (i : Nat) (d : Declaration), unit.declarations[i]? = some d →
        ∃ e e', strict.report.entries[i]? = some e ∧ lenient.report.entries[i]? = some e' ∧
          Entry.Loosened d e e') ∧
      lenient.summary.failed = strict.summary.failed ∧
      lenient.summary.notApplicable = strict.summary.notApplicable ∧
      lenient.summary.classified = strict.summary.classified ∧
      strict.summary.empty ≤ lenient.summary.empty ∧
      ∀ p, (strict.report.locateEmpty p).isSome = true →
        (lenient.report.locateEmpty p).isSome = true := by
  obtain ⟨hjudged, _⟩ := classifyUnit_eq_ok_iff.mp h
  have hverdicts := verdicts_judgedTwice unit
  obtain ⟨hnot, hclassified, hempty⟩ := summary_of_judgedTwice hverdicts
  refine ⟨unitReport false unit, unitReport true unit, classifyUnit_of_not_refused hjudged,
    classifyUnit_of_not_refused hjudged, by simp [unitReport], by simp [unitReport], ?_,
    (summary_failed true unit).trans (summary_failed false unit).symm, hnot, hclassified, hempty,
    locateEmpty_of_judgedTwice hverdicts⟩
  intro i d hd
  exact ⟨_, _, by simp [unitReport, hd], by simp [unitReport, hd], loosened_ofDeclaration d⟩

/-- A class with a method that holds filler, a function without statements behind it, and a class
that cannot be judged. -/
def fillerUnit : SourceUnit :=
  ⟨"stubs.py", "python",
    [⟨0, .classLike, some "Pen", ⟨0, 41, 1, 1, 3, 13⟩, some ⟨some ⟨15, 41, 2, 5, 3, 13⟩, []⟩, some
      [⟨1, .method, some "draw", ⟨15, 41, 2, 5, 3, 13⟩,
        some ⟨some ⟨37, 41, 3, 9, 3, 13⟩, [⟨.noOp, "pass_statement", default⟩]⟩, none⟩]⟩,
      ⟨2, .function, some "area", ⟨43, 54, 5, 1, 5, 12⟩, some ⟨some ⟨54, 54, 5, 12, 5, 12⟩, []⟩,
        none⟩,
      faultyClass],
    [], false⟩

theorem fillerUnit_monotone :
    ∃ strict lenient,
      classifyUnit { noOpsAreEmpty := false } fillerUnit = .ok strict ∧
      classifyUnit { noOpsAreEmpty := true } fillerUnit = .ok lenient ∧
      strict.summary = ⟨1, 2, 0, 1⟩ ∧ lenient.summary = ⟨3, 0, 0, 1⟩ ∧
      (strict.report.locateEmpty ⟨6, 1⟩).isSome = true ∧
      (lenient.report.locateEmpty ⟨6, 1⟩).isSome = true := by
  obtain ⟨strict, lenient, hstrict, hlenient, _, _, _, _, _, _, _, hlocate⟩ :=
    @filler_option_monotone {} fillerUnit _ rfl
  cases hstrict
  cases hlenient
  exact ⟨_, _, rfl, rfl, rfl, rfl, rfl, hlocate ⟨6, 1⟩ rfl⟩

end Hollow
