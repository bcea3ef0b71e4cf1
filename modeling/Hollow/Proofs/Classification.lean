import Hollow.Proofs.Walk
import Mathlib.Data.List.Forall2

/-!
# What a verdict says about everything nested in a declaration

`classify` combines three outcomes (empty, non-empty, nothing to judge) level by level.  This file
gives the outcome in one step, from the flat list of all nested declarations.

* `classify_cases`: the two ways in which a declaration gets a verdict.
* `exists_classify`: a declaration gets one when nothing nested in it is malformed.
* `classify_walk`: the nested verdicts are, one by one, the verdicts on the nested declarations.
* `reason_eq_hasContent_iff`, `reason_eq_noBody_iff`: the two reasons that do not say "empty", by
  what occurs in the nesting.
* `classify_closedForm`: the closed form, for a verdict and for all nested ones.
-/

namespace Hollow

variable {noOps : Bool}

/-! ## Inversion -/

/-- The parts of a declaration contradict its kind. -/
def Declaration.isMalformed (d : Declaration) : Bool :=
  if d.kind.isCallable then d.members.isSome else d.members.isNone

theorem Kind.eq_classLike_of_not_isCallable {k : Kind} (h : ¬k.isCallable = true) :
    k = .classLike := by
  cases k <;> simp_all [Kind.isCallable]

/-- Several declarations are judged one by one. -/
theorem classifyAll_eq_ok_iff {ds : List Declaration} {vs : List Verdict} :
    classifyAll noOps ds = .ok vs ↔ List.Forall₂ (fun d v => classify noOps d = .ok v) ds vs := by
  induction ds generalizing vs with
  | nil => simp [classifyAll, eq_comm]
  | cons d ds ih =>
    rw [classifyAll, List.forall₂_cons_left_iff]
    cases hd : classify noOps d with
    | error fault => simp
    | ok v =>
      cases hds : classifyAll noOps ds with
      | error fault =>
        have hno : ∀ us, ¬List.Forall₂ (fun d v => classify noOps d = .ok v) ds us :=
          fun us hus => by rw [ih.mpr hus] at hds; cases hds
        simp [hno]
      | ok us =>
        have hus : ∀ ws, List.Forall₂ (fun d v => classify noOps d = .ok v) ds ws ↔ us = ws :=
          fun ws => by rw [← ih, hds, Except.ok.injEq]
        simp only [Except.ok.injEq, hus]
        exact ⟨fun h => ⟨v, us, rfl, rfl, h.symm⟩, fun ⟨_, _, hv, hu, h⟩ => by rw [h, hv, hu]⟩

theorem classify_eq (d : Declaration) :
    classify noOps d =
      if d.kind.isCallable then
        if d.members.isSome then .error d.strayMembers
        else .ok ⟨d.ref, (bodyOutcome noOps d.body).isEmpty, (bodyOutcome noOps d.body).reason, []⟩
      else match d.members.map (classifyAll noOps) with
        | none => .error d.missingMembers
        | some (.error fault) => .error fault
        | some (.ok vs) => .ok ⟨d.ref, (memberOutcome vs).isEmpty, (memberOutcome vs).reason, vs⟩ := by
  obtain ⟨id, kind, name, span, body, members⟩ := d
  rw [classify]
  cases members <;> rfl

theorem classify_callable {d : Declaration} (hk : d.kind.isCallable = true)
    (hm : d.members = none) :
    classify noOps d =
      .ok ⟨d.ref, (bodyOutcome noOps d.body).isEmpty, (bodyOutcome noOps d.body).reason, []⟩ := by
  rw [classify_eq, if_pos hk, hm]
  rfl

theorem classify_class {d : Declaration} {ms : List Declaration} {vs : List Verdict}
    (hk : d.kind = .classLike) (hm : d.members = some ms) (hvs : classifyAll noOps ms = .ok vs) :
    classify noOps d =
      .ok ⟨d.ref, (memberOutcome vs).isEmpty, (memberOutcome vs).reason, vs⟩ := by
  rw [classify_eq, hk, hm, Option.map_some, hvs]
  rfl

/-- **The two ways to a verdict**: a callable without a member list is judged by its body, a class
with one by the verdicts on its members. -/
theorem classify_cases {d : Declaration} {v : Verdict} (h : classify noOps d = .ok v) :
    (d.kind.isCallable = true ∧ d.members = none ∧
      v = ⟨d.ref, (bodyOutcome noOps d.body).isEmpty, (bodyOutcome noOps d.body).reason, []⟩) ∨
    ∃ ms vs, d.kind = .classLike ∧ d.members = some ms ∧
      List.Forall₂ (fun m w => classify noOps m = .ok w) ms vs ∧
      v = ⟨d.ref, (memberOutcome vs).isEmpty, (memberOutcome vs).reason, vs⟩ := by
  rw [classify_eq] at h
  split_ifs at h with hk hm
  · rw [Except.ok.injEq] at h
    exact Or.inl ⟨hk, Option.not_isSome_iff_eq_none.mp hm, h.symm⟩
  · split at h
    · cases h
    · cases h
    · rename_i vs hvs
      obtain ⟨ms, hm, hms⟩ := Option.map_eq_some_iff.mp hvs
      rw [Except.ok.injEq] at h
      exact Or.inr ⟨ms, vs, Kind.eq_classLike_of_not_isCallable hk, hm,
        classifyAll_eq_ok_iff.mp hms, h.symm⟩

theorem exists_classifyAll {ds : List Declaration} (h : ∀ d ∈ ds, ∃ v, classify noOps d = .ok v) :
    ∃ vs, classifyAll noOps ds = .ok vs := by
  induction ds with
  | nil => exact ⟨[], rfl⟩
  | cons d ds ih =>
    obtain ⟨v, hv⟩ := h d List.mem_cons_self
    obtain ⟨vs, hvs⟩ := ih fun e he => h e (List.mem_cons_of_mem _ he)
    exact ⟨v :: vs, classifyAll_eq_ok_iff.mpr (.cons hv (classifyAll_eq_ok_iff.mp hvs))⟩

/-- A declaration gets a verdict when nothing nested in it is malformed. -/
theorem exists_classify (d : Declaration) (h : ∀ c ∈ d.walk, c.isMalformed = false) :
    ∃ v, classify noOps d = .ok v := by
  induction d using Declaration.induction with
  | step d ih =>
    have hd := h d d.self_mem_walk
    unfold Declaration.isMalformed at hd
    split at hd
    · rename_i hk
      exact ⟨_, classify_callable hk (by simpa using hd)⟩
    · rename_i hk
      obtain ⟨ms, hm⟩ : ∃ ms, d.members = some ms := Option.isSome_iff_exists.mp (by simpa using hd)
      have hlist := Declaration.memberList_some hm
      obtain ⟨vs, hvs⟩ := exists_classifyAll fun m hmem =>
        ih m (hlist ▸ hmem) fun c hc => h c (Declaration.mem_walk_iff.mpr (.inr ⟨m, hlist ▸ hmem, hc⟩))
      exact ⟨_, classify_class (Kind.eq_classLike_of_not_isCallable hk) hm hvs⟩

/-- The children of a verdict are the verdicts on the members. -/
theorem classify_children {d : Declaration} {v : Verdict} (h : classify noOps d = .ok v) :
    List.Forall₂ (fun m w => classify noOps m = .ok w) d.memberList v.children := by
  rcases classify_cases h with ⟨_, hm, rfl⟩ | ⟨ms, vs, _, hm, hvs, rfl⟩
  · rw [Declaration.memberList_none hm]
    exact .nil
  · rw [Declaration.memberList_some hm]
    exact hvs

/-- **Nested verdicts are verdicts on nested declarations**, in the order of the two walks. -/
theorem classify_walk {d : Declaration} {v : Verdict} (h : classify noOps d = .ok v) :
    List.Forall₂ (fun c w => classify noOps c = .ok w) d.walk v.walk := by
  induction d using Declaration.induction generalizing v with
  | step d ih =>
    rw [d.walk_eq, v.walk_eq]
    refine .cons h ?_
    have hboth := (List.forall₂_and_left _ _).mpr ⟨fun m hmem => @ih m hmem, classify_children h⟩
    exact List.rel_flatMap hboth fun _ _ hmw => hmw.1 hmw.2

/-- A verdict refers to the declaration that it is about. -/
theorem classify_declaration {d : Declaration} {v : Verdict} (h : classify noOps d = .ok v) :
    v.declaration = d.ref := by
  rcases classify_cases h with ⟨_, _, rfl⟩ | ⟨_, _, _, _, _, rfl⟩ <;> rfl

/-! ## Outcomes -/

/-- A judged body is empty exactly when it neither lacks nor has content. -/
theorem bodyOutcome_isEmpty_iff (body : Option Body) :
    (bodyOutcome noOps body).isEmpty = true ↔
      (bodyOutcome noOps body).reason ≠ .hasContent ∧ (bodyOutcome noOps body).reason ≠ .noBody := by
  cases body with
  | none => simp [bodyOutcome]
  | some body =>
    simp only [bodyOutcome, evaluate]
    split_ifs <;> simp

theorem bodyOutcome_reason_eq_noBody_iff (body : Option Body) :
    (bodyOutcome noOps body).reason = .noBody ↔ body = none := by
  cases body with
  | none => simp [bodyOutcome]
  | some body =>
    simp only [bodyOutcome, evaluate]
    split_ifs <;> simp

theorem memberOutcome_isEmpty_iff (vs : List Verdict) :
    (memberOutcome vs).isEmpty = true ↔
      (memberOutcome vs).reason ≠ .hasContent ∧ (memberOutcome vs).reason ≠ .noBody := by
  unfold memberOutcome
  split_ifs <;> simp

/-- A class has nothing to judge when it has members and none of them has anything to judge. -/
theorem memberOutcome_reason_eq_noBody_iff (vs : List Verdict) :
    (memberOutcome vs).reason = .noBody ↔ vs ≠ [] ∧ ∀ v ∈ vs, v.reason = .noBody := by
  unfold memberOutcome
  split_ifs with hnil hno hall <;> simp_all [Verdict.isApplicable]

theorem memberOutcome_reason_of_isEmpty {vs : List Verdict} (hne : vs ≠ [])
    (he : (memberOutcome vs).isEmpty = true) : (memberOutcome vs).reason = .onlyEmptyMembers := by
  unfold memberOutcome at he ⊢
  split_ifs at he ⊢ with hnil
  · exact absurd (List.isEmpty_iff.mp hnil) hne
  · rfl

/-- Emptiness and reason of a verdict agree. -/
def Verdict.Consistent (v : Verdict) : Prop :=
  v.isEmpty = true ↔ v.reason ≠ .hasContent ∧ v.reason ≠ .noBody

theorem classify_consistent {d : Declaration} {v : Verdict} (h : classify noOps d = .ok v) :
    v.Consistent := by
  rcases classify_cases h with ⟨_, _, rfl⟩ | ⟨_, vs, _, _, _, rfl⟩
  · exact bodyOutcome_isEmpty_iff _
  · exact memberOutcome_isEmpty_iff vs

/-- A class has content when one of its members does. -/
theorem memberOutcome_reason_eq_hasContent_iff {vs : List Verdict} (h : ∀ v ∈ vs, v.Consistent) :
    (memberOutcome vs).reason = .hasContent ↔ ∃ v ∈ vs, v.reason = .hasContent := by
  unfold memberOutcome
  split_ifs with hnil hno hall
  · simp_all
  · simp_all [Verdict.isApplicable]
  · simp only [false_iff, not_exists, not_and]
    intro v hv hc
    have he := List.all_eq_true.mp hall v hv
    simp only [Verdict.isApplicable, hc, Bool.or_eq_true] at he
    exact ((h v hv).mp (by simpa using he)).1 hc
  · simp only [true_iff]
    obtain ⟨v, hv, hc⟩ : ∃ v ∈ vs, v.isApplicable = true ∧ v.isEmpty = false := by
      simpa [not_or] using hall
    refine ⟨v, hv, Classical.byContradiction fun hne => ?_⟩
    have := (h v hv).mpr ⟨hne, by simpa [Verdict.isApplicable] using hc.1⟩
    simp [hc.2] at this

/-! ## The flat description -/

namespace Declaration

/-- A callable whose body holds something that counts. -/
def HasContent (noOps : Bool) (d : Declaration) : Prop :=
  d.kind.isCallable = true ∧
    ∃ body, d.body = some body ∧ (evaluate noOps body.statements).reason = .hasContent

/-- A class whose member list is there and has no entry. -/
def IsMemberless (d : Declaration) : Prop := d.kind = .classLike ∧ d.members = some []

/-- Nothing in the nesting is a class without members or a callable with a body. -/
def IsBodiless (d : Declaration) : Prop :=
  (∀ c ∈ d.walk, ¬c.IsMemberless) ∧ ∀ c ∈ d.walk, c.kind.isCallable = true → c.body = none

theorem isBodiless_of_callable {d : Declaration} (hk : d.kind.isCallable = true)
    (hm : d.members = none) : d.IsBodiless ↔ d.body = none := by
  have hself : ¬d.IsMemberless := fun h => by cases hm.symm.trans h.2
  simp only [IsBodiless, d.walk_eq, memberList_none hm, List.flatMap_nil, List.mem_singleton,
    forall_eq, hself, not_false_eq_true, hk, true_and, forall_const]

theorem isBodiless_of_class {d : Declaration} {ms : List Declaration} (hk : d.kind = .classLike)
    (hm : d.members = some ms) : d.IsBodiless ↔ ms ≠ [] ∧ ∀ m ∈ ms, m.IsBodiless := by
  have hself : ¬d.IsMemberless ↔ ms ≠ [] := by simp [IsMemberless, hk, hm]
  have hcall : ¬d.kind.isCallable = true := by simp [hk, Kind.isCallable]
  simp only [IsBodiless, d.walk_eq, memberList_some hm, List.forall_mem_cons, hself,
    List.mem_flatMap]
  constructor
  · rintro ⟨⟨hne, hmem⟩, _, hbody⟩
    exact ⟨hne, fun m hm => ⟨fun c hc => hmem c ⟨m, hm, hc⟩, fun c hc => hbody c ⟨m, hm, hc⟩⟩⟩
  · rintro ⟨hne, h⟩
    exact ⟨⟨hne, fun c ⟨m, hm, hc⟩ => (h m hm).1 c hc⟩, fun hk => absurd hk hcall,
      fun c ⟨m, hm, hc⟩ => (h m hm).2 c hc⟩

theorem exists_hasContent_of_callable {d : Declaration} (hm : d.members = none) :
    (∃ c ∈ d.walk, c.HasContent noOps) ↔ d.HasContent noOps := by
  simp only [d.walk_eq, memberList_none hm, List.flatMap_nil, List.mem_singleton, exists_eq_left]

theorem exists_hasContent_of_class {d : Declaration} {ms : List Declaration}
    (hk : d.kind = .classLike) (hm : d.members = some ms) :
    (∃ c ∈ d.walk, c.HasContent noOps) ↔ ∃ m ∈ ms, ∃ c ∈ m.walk, c.HasContent noOps := by
  have hself : ¬d.HasContent noOps := fun ⟨hcall, _⟩ => by simp [hk, Kind.isCallable] at hcall
  simp only [d.walk_eq, memberList_some hm, List.exists_mem_cons_iff, hself, false_or,
    List.mem_flatMap]
  exact ⟨fun ⟨c, ⟨m, hm, hc⟩, h⟩ => ⟨m, hm, c, hc, h⟩, fun ⟨m, hm, c, hc, h⟩ => ⟨c, ⟨m, hm, hc⟩, h⟩⟩

end Declaration

/-! ### Lists side by side -/

theorem exists_rel_of_mem_right {α β : Type} {R : α → β → Prop} {l : List α} {m : List β}
    (h : List.Forall₂ R l m) {b : β} (hb : b ∈ m) : ∃ a ∈ l, R a b := by
  induction h with
  | nil => cases hb
  | cons hab _ ih =>
    rcases List.mem_cons.mp hb with rfl | hb
    · exact ⟨_, List.mem_cons_self, hab⟩
    · obtain ⟨a, ha, hr⟩ := ih hb
      exact ⟨a, List.mem_cons_of_mem _ ha, hr⟩

theorem exists_rel_of_mem_left {α β : Type} {R : α → β → Prop} {l : List α} {m : List β}
    (h : List.Forall₂ R l m) {a : α} (ha : a ∈ l) : ∃ b ∈ m, R a b :=
  exists_rel_of_mem_right h.flip ha

theorem exists_mem_congr {α β : Type} {p : α → Prop} {q : β → Prop} {l : List α} {m : List β}
    (h : List.Forall₂ (fun a b => q b ↔ p a) l m) : (∃ b ∈ m, q b) ↔ ∃ a ∈ l, p a := by
  induction h with
  | nil => simp
  | cons hab _ ih => simp only [List.exists_mem_cons_iff, hab, ih]

theorem forall_mem_congr {α β : Type} {p : α → Prop} {q : β → Prop} {l : List α} {m : List β}
    (h : List.Forall₂ (fun a b => q b ↔ p a) l m) : (∀ b ∈ m, q b) ↔ ∀ a ∈ l, p a := by
  induction h with
  | nil => simp
  | cons hab _ ih => simp only [List.forall_mem_cons, hab, ih]

/-- **Content anywhere is content**, however deep. -/
theorem reason_eq_hasContent_iff {d : Declaration} {v : Verdict} (h : classify noOps d = .ok v) :
    v.reason = .hasContent ↔ ∃ c ∈ d.walk, c.HasContent noOps := by
  induction d using Declaration.induction generalizing v with
  | step d ih =>
    rcases classify_cases h with ⟨hk, hm, rfl⟩ | ⟨ms, vs, hk, hm, hvs, rfl⟩
    · rw [Declaration.exists_hasContent_of_callable hm]
      cases hb : d.body <;> simp [Declaration.HasContent, hk, hb, bodyOutcome]
    · rw [Declaration.memberList_some hm] at ih
      have hcons : ∀ w ∈ vs, w.Consistent := fun w hw => by
        obtain ⟨m, _, hmw⟩ := exists_rel_of_mem_right hvs hw
        exact classify_consistent hmw
      have hboth := (List.forall₂_and_left _ _).mpr ⟨fun m hmem => @ih m hmem, hvs⟩
      rw [Declaration.exists_hasContent_of_class hk hm, memberOutcome_reason_eq_hasContent_iff hcons]
      exact exists_mem_congr (hboth.imp fun m w hmw => hmw.1 hmw.2)

/-- **Nothing to judge** means that there is nothing to judge at any depth. -/
theorem reason_eq_noBody_iff {d : Declaration} {v : Verdict} (h : classify noOps d = .ok v) :
    v.reason = .noBody ↔ d.IsBodiless := by
  induction d using Declaration.induction generalizing v with
  | step d ih =>
    rcases classify_cases h with ⟨hk, hm, rfl⟩ | ⟨ms, vs, hk, hm, hvs, rfl⟩
    · rw [Declaration.isBodiless_of_callable hk hm]
      exact bodyOutcome_reason_eq_noBody_iff d.body
    · rw [Declaration.memberList_some hm] at ih
      have hboth := (List.forall₂_and_left _ _).mpr ⟨fun m hmem => @ih m hmem, hvs⟩
      have hnil : vs ≠ [] ↔ ms ≠ [] := by
        simp only [← List.length_pos_iff, hvs.length_eq]
      rw [Declaration.isBodiless_of_class hk hm, memberOutcome_reason_eq_noBody_iff, hnil]
      exact and_congr_right fun _ => forall_mem_congr (hboth.imp fun m w hmw => hmw.1 hmw.2)

/-! ## The closed form -/

/-- How a verdict follows from the flat list of what is nested in its declaration. -/
structure ClosedForm (noOps : Bool) (d : Declaration) (v : Verdict) : Prop where
  /-- There is content exactly when some callable in the nesting has a body with content. -/
  hasContent : v.reason = .hasContent ↔ ∃ c ∈ d.walk, c.HasContent noOps
  /-- There is nothing to judge exactly when the nesting has no class without members and no
  callable with a body. -/
  noBody : v.reason = .noBody ↔ d.IsBodiless
  /-- The verdict is "empty" in all other cases and only there. -/
  isEmpty : v.isEmpty = true ↔ ¬(∃ c ∈ d.walk, c.HasContent noOps) ∧ ¬d.IsBodiless
  /-- An empty callable is empty for the reason of its body. -/
  ofCallable : v.isEmpty = true → d.kind.isCallable = true →
    ∃ body, d.body = some body ∧ v.reason = (evaluate noOps body.statements).reason
  /-- An empty class without members has no entry. -/
  ofMemberless : v.isEmpty = true → d.IsMemberless → v.reason = .noStatements
  /-- An empty class with members has only empty ones. -/
  ofMembers : v.isEmpty = true → d.kind = .classLike → ¬d.IsMemberless →
    v.reason = .onlyEmptyMembers

theorem closedForm_of_classify {d : Declaration} {v : Verdict} (h : classify noOps d = .ok v) :
    ClosedForm noOps d v := by
  have hcontent := reason_eq_hasContent_iff h
  have hbodiless := reason_eq_noBody_iff h
  refine ⟨hcontent, hbodiless, ?_, ?_, ?_, ?_⟩
  · rw [← hcontent, ← hbodiless]
    exact classify_consistent h
  · intro he hk
    rcases classify_cases h with ⟨_, _, rfl⟩ | ⟨_, _, hk', _, _, _⟩
    · cases hb : d.body with
      | none => simp [hb, bodyOutcome] at he
      | some body => exact ⟨body, rfl, rfl⟩
    · simp [hk', Kind.isCallable] at hk
  · rintro - ⟨hk, hm⟩
    rcases classify_cases h with ⟨hk', _, _⟩ | ⟨ms, vs, _, hm', hvs, rfl⟩
    · simp [hk, Kind.isCallable] at hk'
    · cases hm.symm.trans hm'
      cases hvs
      rfl
  · intro he hk hmem
    rcases classify_cases h with ⟨hk', _, _⟩ | ⟨ms, vs, _, hm, hvs, rfl⟩
    · simp [hk, Kind.isCallable] at hk'
    · cases hvs with
      | nil => exact absurd ⟨hk, hm⟩ hmem
      | cons _ _ => exact memberOutcome_reason_of_isEmpty (List.cons_ne_nil _ _) he

/-- **The closed form of classification**: it holds of a verdict, and of every verdict nested in
it against the declaration that the nested verdict is about. -/
theorem classify_closedForm {d : Declaration} {v : Verdict} (h : classify noOps d = .ok v) :
    ClosedForm noOps d v ∧
      List.Forall₂ (fun c w => w.declaration = c.ref ∧ ClosedForm noOps c w) d.walk v.walk :=
  ⟨closedForm_of_classify h,
    (classify_walk h).imp fun _ _ hcw => ⟨classify_declaration hcw, closedForm_of_classify hcw⟩⟩

/-- A class with a signature, a class without members, and a method that holds a comment. -/
def mixedClass : Declaration :=
  ⟨0, .classLike, some "Shape", default, none, some
    [⟨1, .method, some "area", default, none, none⟩,
      ⟨2, .classLike, some "Unit", default, none, some []⟩,
      ⟨3, .method, some "draw", default, some ⟨none, [⟨.comment, "comment", default⟩]⟩, none⟩]⟩

theorem mixedClass_closedForm :
    ∃ v, classify true mixedClass = .ok v ∧ v.reason = .onlyEmptyMembers ∧
      ClosedForm true mixedClass v ∧
      List.Forall₂ (fun c w => w.declaration = c.ref ∧ ClosedForm true c w)
        mixedClass.walk v.walk :=
  ⟨_, rfl, rfl, classify_closedForm rfl⟩

end Hollow
