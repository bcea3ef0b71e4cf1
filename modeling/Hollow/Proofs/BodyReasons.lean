import Hollow.Verdict
import Mathlib.Data.Finset.Dedup
import Mathlib.Order.Lattice

/-!
# Reasons for bodies

Each category of statement stands for a reason: the one for a body that holds nothing else.  In the
order in which reasons are declared, the reason for a whole body is the largest that its statements
stand for.  So the outcome is a join: it depends on which categories occur and on nothing else, and
a body never becomes emptier by what is added to it.

* `Category.reason` — the reason that a statement of a category stands for.
* `reason_evaluate_cons` — one more statement in front joins its reason to that of the others.
* `reason_evaluate_le_iff` — the reason for a body is the least one above those of its statements.
* `evaluate_is_join` — the laws that follow.
-/

namespace Hollow

/-! ## The order of reasons -/

/-- The place of a reason among all reasons. -/
def Reason.rank (r : Reason) : Nat := Reason.all.idxOf r

theorem Reason.rank_injective : Function.Injective Reason.rank := by
  intro r r' h
  have hr : r ∈ Reason.all := by cases r <;> decide
  exact List.idxOf_inj hr |>.mp h

/-- Reasons are ordered as they are declared. -/
instance : LinearOrder Reason := LinearOrder.lift' Reason.rank Reason.rank_injective

/-- The reasons that a body can be judged for, from the emptiest body on. -/
def Reason.ofBodies : List Reason :=
  [.noStatements, .onlyCommentsOrWhitespace, .onlyNoOps, .hasContent]

theorem Reason.pairwise_ofBodies : Reason.ofBodies.Pairwise (· < ·) := by decide

theorem Reason.noStatements_le (r : Reason) : .noStatements ≤ r := by cases r <;> decide

theorem Reason.le_hasContent_of_mem {r : Reason} (h : r ∈ Reason.ofBodies) : r ≤ .hasContent := by
  revert h
  cases r <;> decide

/-! ## The reason for a body -/

variable {noOps : Bool} {xs ys : List Statement}

/-- The reason for a body of statements of one category. -/
def Category.reason (noOps : Bool) (c : Category) : Reason :=
  if c.isSignificant noOps then .hasContent
  else if c == .noOp then .onlyNoOps
  else .onlyCommentsOrWhitespace

theorem reason_evaluate_mem (noOps : Bool) (xs : List Statement) :
    (evaluate noOps xs).reason ∈ Reason.ofBodies := by
  unfold evaluate
  split_ifs <;> decide

theorem isEmpty_evaluate_iff (noOps : Bool) (xs : List Statement) :
    (evaluate noOps xs).isEmpty = true ↔ (evaluate noOps xs).reason ≠ .hasContent := by
  unfold evaluate
  split_ifs <;> decide

/-- **One more statement** in front joins its own reason to that of the others. -/
theorem reason_evaluate_cons (noOps : Bool) (s : Statement) (xs : List Statement) :
    (evaluate noOps (s :: xs)).reason =
      max (s.category.reason noOps) (evaluate noOps xs).reason := by
  unfold evaluate Category.reason
  rw [List.any_cons, List.any_cons, List.isEmpty_cons]
  generalize s.category.isSignificant noOps = sig
  generalize (s.category == .noOp) = fill
  cases xs with
  | nil =>
    rw [List.any_nil, List.any_nil]
    revert sig fill
    decide
  | cons x xs =>
    -- Both sides ask the same two questions of the statements behind `s`.
    generalize (x :: xs).any (·.category.isSignificant noOps) = sigs
    generalize (x :: xs).any (·.category == .noOp) = fills
    rw [List.isEmpty_cons]
    revert sig fill sigs fills
    decide

/-- **The reason for a body** is the least one above the reasons of its statements. -/
theorem reason_evaluate_le_iff {r : Reason} :
    (evaluate noOps xs).reason ≤ r ↔ ∀ s ∈ xs, s.category.reason noOps ≤ r := by
  induction xs with
  | nil =>
    have hnil : (evaluate noOps []).reason = .noStatements := rfl
    simp [hnil, Reason.noStatements_le]
  | cons s xs ih => rw [reason_evaluate_cons, max_le_iff, ih, List.forall_mem_cons]

theorem reason_evaluate_append (noOps : Bool) (xs ys : List Statement) :
    (evaluate noOps (xs ++ ys)).reason =
      max (evaluate noOps xs).reason (evaluate noOps ys).reason := by
  refine eq_of_forall_ge_iff fun r => ?_
  rw [max_le_iff, reason_evaluate_le_iff, reason_evaluate_le_iff, reason_evaluate_le_iff,
    List.forall_mem_append]

/-! ## The categories of a body -/

/-- The categories that occur among statements. -/
def categoriesIn (xs : List Statement) : Finset Category := (xs.map (·.category)).toFinset

theorem mem_categoriesIn {c : Category} : c ∈ categoriesIn xs ↔ ∃ s ∈ xs, s.category = c := by
  rw [categoriesIn, List.mem_toFinset, List.mem_map]

theorem reason_evaluate_mono (h : categoriesIn xs ⊆ categoriesIn ys) :
    (evaluate noOps xs).reason ≤ (evaluate noOps ys).reason := by
  refine reason_evaluate_le_iff.mpr fun s hs => ?_
  obtain ⟨t, ht, hcategory⟩ := mem_categoriesIn.mp (h (mem_categoriesIn.mpr ⟨s, hs, rfl⟩))
  rw [← hcategory]
  exact reason_evaluate_le_iff.mp le_rfl t ht

theorem isEmpty_evaluate_anti (h : categoriesIn xs ⊆ categoriesIn ys)
    (hys : (evaluate noOps ys).isEmpty = true) : (evaluate noOps xs).isEmpty = true := by
  rw [isEmpty_evaluate_iff] at hys ⊢
  intro hxs
  have hle : .hasContent ≤ (evaluate noOps ys).reason := hxs ▸ reason_evaluate_mono h
  exact hys (le_antisymm (Reason.le_hasContent_of_mem (reason_evaluate_mem noOps ys)) hle)

/-- The outcome is told by its reason. -/
theorem evaluate_eq_of_reason_eq
    (h : (evaluate noOps xs).reason = (evaluate noOps ys).reason) :
    evaluate noOps xs = evaluate noOps ys := by
  have hempty : (evaluate noOps xs).isEmpty = (evaluate noOps ys).isEmpty := by
    rw [Bool.eq_iff_iff, isEmpty_evaluate_iff, isEmpty_evaluate_iff, h]
  cases hx : evaluate noOps xs
  cases hy : evaluate noOps ys
  rw [hx, hy] at h hempty
  exact congrArg₂ Evaluation.mk hempty h

/-- **Judging bodies is a join.**  The reasons for bodies are ordered from the emptiest body to one
with content, and a body is empty unless its reason is content.  The reason for two bodies in a row
is the larger one of their reasons.  So the outcome depends on the categories that occur alone:
bodies with the same categories are judged alike, whatever the order, the repetition, the kinds of
node and the spans, and a body with further categories is never emptier. -/
theorem evaluate_is_join (noOps : Bool) :
    Reason.ofBodies.Pairwise (· < ·) ∧
      (∀ xs, (evaluate noOps xs).reason ∈ Reason.ofBodies ∧
        ((evaluate noOps xs).isEmpty = true ↔ (evaluate noOps xs).reason ≠ .hasContent)) ∧
      (∀ xs ys, (evaluate noOps (xs ++ ys)).reason =
        max (evaluate noOps xs).reason (evaluate noOps ys).reason) ∧
      (∀ xs ys, categoriesIn xs = categoriesIn ys → evaluate noOps xs = evaluate noOps ys) ∧
      ∀ xs ys, categoriesIn xs ⊆ categoriesIn ys →
        (evaluate noOps xs).reason ≤ (evaluate noOps ys).reason ∧
          ((evaluate noOps ys).isEmpty = true → (evaluate noOps xs).isEmpty = true) := by
  refine ⟨Reason.pairwise_ofBodies, fun xs => ⟨reason_evaluate_mem noOps xs,
    isEmpty_evaluate_iff noOps xs⟩, reason_evaluate_append noOps, ?_, ?_⟩
  · intro xs ys h
    apply evaluate_eq_of_reason_eq
    exact le_antisymm (reason_evaluate_mono h.subset) (reason_evaluate_mono h.superset)
  · intro xs ys h
    exact ⟨reason_evaluate_mono h, isEmpty_evaluate_anti h⟩

/-- A comment. -/
def commentStatement : Statement := ⟨.comment, "comment", default⟩

/-- A statement that does nothing. -/
def passStatement : Statement := ⟨.noOp, "pass_statement", default⟩

theorem commentAndPass_joined :
    categoriesIn [commentStatement, passStatement] =
        categoriesIn [passStatement, commentStatement, passStatement] ∧
      evaluate true [commentStatement, passStatement] =
        evaluate true [passStatement, commentStatement, passStatement] ∧
      categoriesIn [commentStatement] ⊆ categoriesIn [commentStatement, passStatement] ∧
      (evaluate true [commentStatement]).reason ≤
        (evaluate true [commentStatement, passStatement]).reason ∧
      (evaluate true [commentStatement, passStatement]).reason =
        max (evaluate true [commentStatement]).reason (evaluate true [passStatement]).reason := by
  obtain ⟨_, _, hjoin, hsame, hmore⟩ := evaluate_is_join true
  have hsets : categoriesIn [commentStatement, passStatement] =
      categoriesIn [passStatement, commentStatement, passStatement] := by decide
  have hpart : categoriesIn [commentStatement] ⊆
      categoriesIn [commentStatement, passStatement] := by decide
  exact ⟨hsets, hsame _ _ hsets, hpart, (hmore _ _ hpart).1,
    hjoin [commentStatement] [passStatement]⟩

end Hollow
