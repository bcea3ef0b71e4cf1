import Hollow.Proofs.Classification

/-!
# When a declaration cannot be judged

`classify` stops at the first member that fails, at any depth, and never looks inside a callable;
a walk shows every declaration, also those below a callable that must not have any.  The two agree
on the culprit: the first declaration of the walk whose parts contradict its kind.

* `Declaration.culprit?` — that declaration; `culprit?_of_isMalformed`, `culprit?_of_not_isMalformed`
  follow it down the nesting.
* `refusal?_classifyAll` — several declarations fail as the first of them that fails.
* `refusal?_classify` — a declaration fails with the complaint about its culprit, or not at all.
* `classify_first_malformed` — when a declaration is judged, with which fault it fails otherwise,
  and the shape of its verdict.
-/

namespace Hollow

variable {noOps : Bool}

/-! ## Culprits -/

namespace Declaration

/-- What is said about a declaration whose parts contradict its kind. -/
def complaint (d : Declaration) : Fault :=
  if d.kind.isCallable then d.strayMembers else d.missingMembers

/-- The first declaration of a walk whose parts contradict its kind. -/
def culprit? (d : Declaration) : Option Declaration := d.walk.find? isMalformed

theorem culprit?_of_isMalformed {d : Declaration} (h : d.isMalformed = true) :
    d.culprit? = some d := by
  rw [culprit?, walk_eq, List.find?_cons_of_pos h]

/-- A declaration whose own parts agree is as good as its members, taken in order. -/
theorem culprit?_of_not_isMalformed {d : Declaration} (h : ¬d.isMalformed = true) :
    d.culprit? = d.memberList.findSome? culprit? := by
  rw [culprit?, walk_eq, List.find?_cons_of_neg h, List.find?_flatMap]
  rfl

theorem culprit?_eq_none_iff {d : Declaration} :
    d.culprit? = none ↔ ∀ c ∈ d.walk, c.isMalformed = false := by
  simp only [culprit?, List.find?_eq_none, Bool.not_eq_true]

end Declaration

/-! ## Refusals -/

/-- The fault of a failed attempt. -/
def refusal? {α : Type} : Except Fault α → Option Fault
  | .error fault => some fault
  | .ok _ => none

theorem refusal?_eq_some_iff {α : Type} {result : Except Fault α} {fault : Fault} :
    refusal? result = some fault ↔ result = .error fault := by
  cases result <;> simp [refusal?]

theorem refusal?_eq_none_iff {α : Type} {result : Except Fault α} :
    refusal? result = none ↔ ∃ value, result = .ok value := by
  cases result <;> simp [refusal?]

/-- Several declarations fail as the first of them that fails. -/
theorem refusal?_classifyAll (ds : List Declaration) :
    refusal? (classifyAll noOps ds) = ds.findSome? fun d => refusal? (classify noOps d) := by
  induction ds with
  | nil => rfl
  | cons d ds ih =>
    rw [classifyAll, List.findSome?_cons, ← ih]
    cases classify noOps d with
    | error fault => rfl
    | ok v => cases classifyAll noOps ds <;> rfl

theorem refusal?_of_callable {d : Declaration} (hk : d.kind.isCallable = true) :
    refusal? (classify noOps d) = if d.members.isSome then some d.strayMembers else none := by
  rw [classify_eq, if_pos hk]
  split_ifs <;> rfl

theorem refusal?_of_class {d : Declaration} (hk : ¬d.kind.isCallable = true) :
    refusal? (classify noOps d) =
      match d.members with
      | none => some d.missingMembers
      | some ms => ms.findSome? fun m => refusal? (classify noOps m) := by
  rw [classify_eq, if_neg hk]
  cases d.members with
  | none => rfl
  | some ms =>
    simp only [Option.map_some, ← refusal?_classifyAll]
    cases classifyAll noOps ms <;> rfl

/-- **A declaration fails with the complaint about its culprit**, or not at all. -/
theorem refusal?_classify (d : Declaration) :
    refusal? (classify noOps d) = d.culprit?.map Declaration.complaint := by
  induction d using Declaration.induction with
  | step d ih =>
    by_cases hk : d.kind.isCallable = true
    · have hmal : d.isMalformed = d.members.isSome := if_pos hk
      rw [refusal?_of_callable hk]
      split_ifs with hm
      · rw [Declaration.culprit?_of_isMalformed (hmal.trans hm), Option.map_some,
          Declaration.complaint, if_pos hk]
      · rw [Declaration.culprit?_of_not_isMalformed (hmal ▸ hm),
          Declaration.memberList_none (Option.not_isSome_iff_eq_none.mp hm)]
        rfl
    · have hmal : d.isMalformed = d.members.isNone := if_neg hk
      rw [refusal?_of_class hk]
      cases hm : d.members with
      | none =>
        rw [Declaration.culprit?_of_isMalformed (by rw [hmal, hm]; rfl), Option.map_some,
          Declaration.complaint, if_neg hk]
      | some ms =>
        rw [Declaration.memberList_some hm] at ih
        rw [Declaration.culprit?_of_not_isMalformed (by simp [hmal, hm]),
          Declaration.memberList_some hm, List.map_findSome?]
        simp only [← List.head?_filterMap]
        exact congrArg List.head? (List.filterMap_congr ih)

/-! ## The shape of verdicts -/

/-- Declarations judged one by one are what the verdicts refer to. -/
theorem map_declaration_of_judged {ds : List Declaration} {vs : List Verdict}
    (h : List.Forall₂ (fun d v => classify noOps d = .ok v) ds vs) :
    vs.map (·.declaration) = ds.map Declaration.ref := by
  induction h with
  | nil => rfl
  | cons hv _ ih => rw [List.map_cons, List.map_cons, ih, classify_declaration hv]

/-- The children of a verdict are about the members, one by one. -/
theorem map_declaration_children {d : Declaration} {v : Verdict} (h : classify noOps d = .ok v) :
    v.children.map (·.declaration) = d.memberList.map Declaration.ref :=
  map_declaration_of_judged (classify_children h)

/-- **When a declaration is judged, and what becomes of it.**  It is judged exactly when nothing in
its walk is malformed.  Otherwise it fails with the complaint about the first malformed declaration
of the walk, whatever counts as filler.  The verdict refers to the declarations of the walk, one by
one, and at every level the children of a verdict are about the members of its declaration. -/
theorem classify_first_malformed (noOps : Bool) (d : Declaration) :
    ((∃ v, classify noOps d = .ok v) ↔ ∀ c ∈ d.walk, c.isMalformed = false) ∧
      (∀ fault, classify noOps d = .error fault ↔
        ∃ c, d.walk.find? Declaration.isMalformed = some c ∧ fault = c.complaint) ∧
      (∀ v, classify noOps d = .ok v →
        v.walk.map (·.declaration) = d.walk.map Declaration.ref ∧
          List.Forall₂ (fun c w => w.declaration = c.ref ∧
            w.children.map (·.declaration) = c.memberList.map Declaration.ref) d.walk v.walk) ∧
      ∀ other fault, classify noOps d = .error fault ↔ classify other d = .error fault := by
  have hfault : ∀ options fault, classify options d = .error fault ↔
      ∃ c, d.culprit? = some c ∧ fault = c.complaint := by
    intro options fault
    rw [← refusal?_eq_some_iff, refusal?_classify, Option.map_eq_some_iff]
    exact exists_congr fun c => and_congr_right fun _ => eq_comm
  refine ⟨?_, hfault noOps, fun v hv => ⟨map_declaration_of_judged (classify_walk hv), ?_⟩, ?_⟩
  · rw [← refusal?_eq_none_iff, refusal?_classify, Option.map_eq_none_iff,
      Declaration.culprit?_eq_none_iff]
  · exact (classify_walk hv).imp fun _ _ hcw =>
      ⟨classify_declaration hcw, map_declaration_children hcw⟩
  · intro other fault
    rw [hfault noOps, hfault other]

/-- A class with three faults: a method that has a class without member list as its member, and
behind it another class without member list. -/
def faultyClass : Declaration :=
  ⟨0, .classLike, some "Shape", default, none, some
    [⟨1, .method, some "area", default, none, none⟩,
      ⟨2, .classLike, none, default, none, some
        [⟨3, .method, some "draw", default, none, some
          [⟨4, .classLike, some "Pen", default, none, none⟩]⟩]⟩,
      ⟨5, .classLike, some "Unit", default, none, none⟩]⟩

theorem faultyClass_first_malformed :
    faultyClass.walk.filterMap (fun c => if c.isMalformed then some c.id else none) = [3, 4, 5] ∧
      classify true faultyClass = .error (.malformed 3 "method `draw` carries a member list") ∧
      ∃ v, classify false mixedClass = .ok v ∧
        v.walk.map (·.declaration) = mixedClass.walk.map Declaration.ref :=
  ⟨rfl, ((classify_first_malformed true faultyClass).2.1 _).mpr ⟨_, rfl, rfl⟩, _, rfl,
    ((classify_first_malformed false mixedClass).2.2.1 _ rfl).1⟩

end Hollow
