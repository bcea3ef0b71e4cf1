import Hollow.Verdict

/-!
# Walking declarations and verdicts

Both trees are nested through lists, so that recursion on them takes several functions at once.
This file says once how to do induction on them and how their depth-first walks unfold; later
proofs use nothing else of the recursion.

* `Declaration.induction`, `Verdict.induction`: what holds of a tree whenever it holds of all the
  trees directly below holds of every tree.
* `Declaration.walk_eq`, `Verdict.walk_eq`: a tree comes first, then the walks of the trees below.
-/

namespace Hollow

namespace Declaration

/-- The members of a class; none when the list is absent. -/
def memberList (d : Declaration) : List Declaration := d.members.getD []

theorem memberList_none {d : Declaration} (h : d.members = none) : d.memberList = [] := by
  rw [memberList, h, Option.getD_none]

theorem memberList_some {d : Declaration} {ms : List Declaration} (h : d.members = some ms) :
    d.memberList = ms := by
  rw [memberList, h, Option.getD_some]

mutual

theorem recursion {P : Declaration → Prop} (h : ∀ d, (∀ m ∈ d.memberList, P m) → P d) :
    ∀ d, P d
  | ⟨_, _, _, _, _, members⟩ => h _ (recursionMembers h members)

theorem recursionMembers {P : Declaration → Prop} (h : ∀ d, (∀ m ∈ d.memberList, P m) → P d) :
    ∀ (members : Option (List Declaration)), ∀ m ∈ members.getD [], P m
  | none => fun _ hm => absurd hm List.not_mem_nil
  | some ds => recursionAll h ds

theorem recursionAll {P : Declaration → Prop} (h : ∀ d, (∀ m ∈ d.memberList, P m) → P d) :
    ∀ (ds : List Declaration), ∀ m ∈ ds, P m
  | [] => fun _ hm => absurd hm List.not_mem_nil
  | d :: ds => List.forall_mem_cons.mpr ⟨recursion h d, recursionAll h ds⟩

end

/-- Induction over the nesting of declarations. -/
@[elab_as_elim]
theorem induction {P : Declaration → Prop} (d : Declaration)
    (step : ∀ d, (∀ m ∈ d.memberList, P m) → P d) : P d :=
  recursion step d

theorem walkAll_eq_flatMap (ds : List Declaration) : walkAll ds = ds.flatMap walk := by
  induction ds with
  | nil => rfl
  | cons d ds ih => rw [walkAll, ih, List.flatMap_cons]

/-- A declaration comes before everything nested in it. -/
theorem walk_eq (d : Declaration) : d.walk = d :: d.memberList.flatMap walk := by
  obtain ⟨id, kind, name, span, body, members⟩ := d
  cases members with
  | none => rfl
  | some ds => exact congrArg _ (walkAll_eq_flatMap ds)

theorem self_mem_walk (d : Declaration) : d ∈ d.walk := by
  rw [walk_eq]; exact List.mem_cons_self

theorem mem_walk_iff {c d : Declaration} : c ∈ d.walk ↔ c = d ∨ ∃ m ∈ d.memberList, c ∈ m.walk := by
  rw [walk_eq, List.mem_cons, List.mem_flatMap]

/-- A walk goes on to the members of what it meets. -/
theorem mem_walk_of_mem_memberList {d e m : Declaration} (he : e ∈ d.walk) (hm : m ∈ e.memberList) :
    m ∈ d.walk := by
  induction d using Declaration.induction with
  | step d ih =>
    rw [mem_walk_iff] at he ⊢
    rcases he with rfl | ⟨n, hn, he⟩
    · exact Or.inr ⟨m, hm, m.self_mem_walk⟩
    · exact Or.inr ⟨n, hn, ih n hn he⟩

/-- What is nested in something nested is nested. -/
theorem mem_walk_trans {c d e : Declaration} (he : e ∈ d.walk) (hc : c ∈ e.walk) : c ∈ d.walk := by
  induction e using Declaration.induction generalizing c with
  | step e ih =>
    rcases mem_walk_iff.mp hc with rfl | ⟨m, hm, hc⟩
    · exact he
    · exact ih m hm (mem_walk_of_mem_memberList he hm) hc

theorem mem_walkAll_iff {c : Declaration} {ds : List Declaration} :
    c ∈ walkAll ds ↔ ∃ d ∈ ds, c ∈ d.walk := by
  rw [walkAll_eq_flatMap, List.mem_flatMap]

end Declaration

namespace Verdict

mutual

theorem recursion {P : Verdict → Prop} (h : ∀ v, (∀ c ∈ v.children, P c) → P v) : ∀ v, P v
  | ⟨_, _, _, children⟩ => h _ (recursionAll h children)

theorem recursionAll {P : Verdict → Prop} (h : ∀ v, (∀ c ∈ v.children, P c) → P v) :
    ∀ (vs : List Verdict), ∀ c ∈ vs, P c
  | [] => fun _ hc => absurd hc List.not_mem_nil
  | v :: vs => List.forall_mem_cons.mpr ⟨recursion h v, recursionAll h vs⟩

end

/-- Induction over the nesting of verdicts. -/
@[elab_as_elim]
theorem induction {P : Verdict → Prop} (v : Verdict)
    (step : ∀ v, (∀ c ∈ v.children, P c) → P v) : P v :=
  recursion step v

theorem walkAll_eq_flatMap (vs : List Verdict) : walkAll vs = vs.flatMap walk := by
  induction vs with
  | nil => rfl
  | cons v vs ih => rw [walkAll, ih, List.flatMap_cons]

/-- A verdict comes before everything nested in it. -/
theorem walk_eq (v : Verdict) : v.walk = v :: v.children.flatMap walk := by
  obtain ⟨declaration, isEmpty, reason, children⟩ := v
  exact congrArg _ (walkAll_eq_flatMap children)

end Verdict

end Hollow
