import Hollow.Proofs.Malformed

/-!
# Places in nested declarations and verdicts

A path is a list of numbers, each of which picks a member.  Paths say which declaration and which
verdict belong together, also where declarations repeat.

* `Declaration.nested?`, `Verdict.nested?` — what a path leads to.
* `nested?_classify` — the verdict at a place is the verdict on the declaration there.
* `Declaration.modifyNested` — an edit at one place.  `nested?_modifyNested_append` and
  `nested?_modifyNested_elsewhere` say what it changes: the places on the way, and no others.
-/

namespace Hollow

variable {noOps : Bool}

/-- Lists side by side have related entries at every index, or none. -/
theorem forall₂_getElem? {α β : Type} {R : α → β → Prop} {l : List α} {m : List β}
    (h : List.Forall₂ R l m) (i : Nat) : Option.Rel R l[i]? m[i]? := by
  induction h generalizing i with
  | nil => exact .none
  | cons hab _ ih =>
    cases i with
    | zero => exact .some hab
    | succ i => simpa using ih i

namespace Declaration

/-- The declaration that a path leads to. -/
def nested? : List Nat → Declaration → Option Declaration
  | [], d => some d
  | i :: path, d => d.memberList[i]?.bind (nested? path)

theorem nested?_append (p q : List Nat) (d : Declaration) :
    d.nested? (p ++ q) = (d.nested? p).bind (nested? q) := by
  induction p generalizing d with
  | nil => rfl
  | cons i p ih =>
    rw [List.cons_append, nested?, nested?]
    cases d.memberList[i]? with
    | none => rfl
    | some m => exact ih m

theorem mem_walk_of_nested? {path : List Nat} {c d : Declaration} (h : d.nested? path = some c) :
    c ∈ d.walk := by
  induction path generalizing d with
  | nil =>
    cases h
    exact c.self_mem_walk
  | cons i path ih =>
    rw [nested?, Option.bind_eq_some_iff] at h
    obtain ⟨m, hm, hc⟩ := h
    exact mem_walk_iff.mpr (Or.inr ⟨m, List.mem_of_getElem? hm, ih hc⟩)

/-- Replace the declaration that a path leads to, and nothing else. -/
def modifyNested (f : Declaration → Declaration) : List Nat → Declaration → Declaration
  | [], d => f d
  | i :: path, d => { d with members := d.members.map (·.modify i (modifyNested f path)) }

theorem memberList_modifyNested_cons (f : Declaration → Declaration) (i : Nat) (path : List Nat)
    (d : Declaration) :
    (d.modifyNested f (i :: path)).memberList = d.memberList.modify i (modifyNested f path) := by
  unfold memberList
  rw [modifyNested]
  cases d.members with
  | none => simp
  | some ms => rfl

/-- On the way to the edit, and at its place, the declarations hold it. -/
theorem nested?_modifyNested_append (f : Declaration → Declaration) (q rest : List Nat)
    (d : Declaration) :
    (d.modifyNested f (q ++ rest)).nested? q = (d.nested? q).map (modifyNested f rest) := by
  induction q generalizing d with
  | nil => rfl
  | cons i q ih =>
    rw [List.cons_append, nested?, nested?, memberList_modifyNested_cons, List.getElem?_modify]
    cases d.memberList[i]? with
    | none => rfl
    | some m => simpa using ih m

/-- Elsewhere nothing changes, if the edit itself keeps the members. -/
theorem nested?_modifyNested_elsewhere {f : Declaration → Declaration}
    (hf : ∀ c, (f c).members = c.members) {path q : List Nat} (hq : ¬q <+: path) (d : Declaration) :
    (d.modifyNested f path).nested? q = d.nested? q := by
  induction path generalizing q d with
  | nil =>
    cases q with
    | nil => exact absurd List.nil_prefix hq
    | cons j q =>
      have hmembers : (f d).memberList = d.memberList := by unfold memberList; rw [hf]
      rw [modifyNested, nested?, nested?, hmembers]
  | cons i path ih =>
    cases q with
    | nil => exact absurd List.nil_prefix hq
    | cons j q =>
      rw [nested?, nested?, memberList_modifyNested_cons, List.getElem?_modify]
      by_cases hij : i = j
      · have hrest : ¬q <+: path := fun h => hq (List.cons_prefix_cons.mpr ⟨hij.symm, h⟩)
        cases d.memberList[j]? with
        | none => rfl
        | some m => simpa [hij] using ih hrest m
      · cases d.memberList[j]? with
        | none => rfl
        | some m => simp [hij]

end Declaration

namespace Verdict

/-- The verdict that a path leads to. -/
def nested? : List Nat → Verdict → Option Verdict
  | [], v => some v
  | i :: path, v => v.children[i]?.bind (nested? path)

end Verdict

/-- **The verdict at a place is the verdict on the declaration there.** -/
theorem nested?_classify {d : Declaration} {v : Verdict} (h : classify noOps d = .ok v)
    (path : List Nat) :
    Option.Rel (fun c w => classify noOps c = .ok w) (d.nested? path) (v.nested? path) := by
  induction path generalizing d v with
  | nil => exact .some h
  | cons i path ih =>
    rw [Declaration.nested?, Verdict.nested?]
    have hmember := forall₂_getElem? (classify_children h) i
    generalize d.memberList[i]? = m at hmember ⊢
    generalize v.children[i]? = w at hmember ⊢
    cases hmember with
    | none => exact .none
    | some hmw => exact ih hmw

end Hollow
