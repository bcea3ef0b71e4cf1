import Hollow.Canonical
import Hollow.Proofs.Walk
import Mathlib.Data.List.Perm.Basic

/-!
# Building member lists from a flat sequence

`forest` turns a flat sequence of placed declarations, each with the index of the class that it is
a member of, into declarations with member lists.  What a walk over the result shows, member lists
apart, is its `outline`; the outline unfolds along the sequence (`outline_cons`), and the rest of
the file works with that equation alone.

* `Attached` — every member comes after its class, as placing guarantees for all syntax trees.
  Then nothing is lost or duplicated: `outline_perm`.
* `Nested` — moreover, what belongs to a class stands directly behind it.  Then nothing is moved
  either: `Nested.outline_eq`.
-/

namespace Hollow

/-! ## Shells -/

/-- The declaration with its member list emptied. -/
def Declaration.shell (d : Declaration) : Declaration :=
  { d with members := d.members.map fun _ => [] }

namespace Placed

/-- Exactly the classes have a member list, and it is empty. -/
def Unfilled (p : Placed) : Prop := p.declaration.members = if p.isClass then some [] else none

/-- The declaration with the members that a sequence holds for it. -/
def filled (p : Placed) (rest : List Placed) : Declaration :=
  { p.declaration with members := p.declaration.members.map fun _ => forest (some p.index) rest }

theorem shell_filled {p : Placed} (hp : p.Unfilled) (rest : List Placed) :
    (p.filled rest).shell = p.declaration := by
  obtain ⟨number, index, ⟨id, kind, name, span, body, members⟩, parent⟩ := p
  cases members with
  | none => rfl
  | some ms =>
    have hms : ms = [] := by
      unfold Unfilled at hp
      split_ifs at hp
      exact Option.some.inj hp
    subst hms
    rfl

end Placed

/-! ## Outlines -/

/-- What a walk over a forest shows, member lists emptied. -/
def outline (owner : Option Nat) (ps : List Placed) : List Declaration :=
  (Declaration.walkAll (forest owner ps)).map Declaration.shell

/-- The outline of the members of a declaration. -/
def Placed.inside (p : Placed) (ps : List Placed) : List Declaration :=
  if p.isClass then outline (some p.index) ps else []

theorem outline_nil (owner : Option Nat) : outline owner [] = [] := rfl

/-- A declaration shows up at its owner, followed by what is inside of it. -/
theorem outline_cons {p : Placed} (hp : p.Unfilled) (owner : Option Nat) (ps : List Placed) :
    outline owner (p :: ps) =
      if p.parent = owner then p.declaration :: p.inside ps ++ outline owner ps
      else outline owner ps := by
  have hwalk : (p.filled ps).walk.map Declaration.shell = p.declaration :: p.inside ps := by
    rw [Declaration.walk_eq, List.map_cons, p.shell_filled hp, ← Declaration.walkAll_eq_flatMap]
    unfold Placed.Unfilled at hp
    unfold Placed.inside
    split_ifs at hp ⊢
    · rw [Declaration.memberList_some (show (p.filled ps).members = some _ by
        simp only [Placed.filled, hp, Option.map_some]; rfl)]
      rfl
    · rw [Declaration.memberList_none (show (p.filled ps).members = none by
        simp only [Placed.filled, hp, Option.map_none])]
      rfl
  unfold outline
  rw [forest]
  split_ifs
  · rw [Declaration.walkAll, List.map_append]
    exact congrArg (· ++ _) hwalk
  · rfl

theorem outline_eq_nil {owner : Option Nat} {ps : List Placed} (hun : ∀ p ∈ ps, p.Unfilled)
    (h : ∀ p ∈ ps, p.parent ≠ owner) : outline owner ps = [] := by
  induction ps with
  | nil => rfl
  | cons p ps ih =>
    rw [List.forall_mem_cons] at hun h
    rw [outline_cons hun.1, if_neg h.1, ih hun.2 h.2]

/-- Sequences are independent when the second holds no members for the first. -/
theorem outline_append {owner : Option Nat} {ps qs : List Placed} (hps : ∀ p ∈ ps, p.Unfilled)
    (hqs : ∀ q ∈ qs, q.Unfilled) (h : ∀ p ∈ ps, ∀ q ∈ qs, q.parent ≠ some p.index) :
    outline owner (ps ++ qs) = outline owner ps ++ outline owner qs := by
  induction ps generalizing owner with
  | nil => rfl
  | cons p ps ih =>
    rw [List.forall_mem_cons] at hps h
    have hinside : p.inside (ps ++ qs) = p.inside ps := by
      unfold Placed.inside
      rw [ih hps.2 h.2, outline_eq_nil hqs h.1, List.append_nil]
    rw [List.cons_append, outline_cons hps.1, outline_cons hps.1, hinside, ih hps.2 h.2]
    split_ifs <;> simp

/-! ## Nothing is lost -/

/-- Every declaration belongs to one of the owners or to a class before it. -/
def Attached : List (Option Nat) → List Placed → Prop
  | _, [] => True
  | owners, p :: ps =>
    p.parent ∈ owners ∧ Attached (if p.isClass then some p.index :: owners else owners) ps

/-- Where one element of a list contributes more, the surplus can be drawn to the front. -/
theorem flatMap_ite_perm {α β : Type} [DecidableEq α] {l : List α} (hl : l.Nodup) {a : α}
    (ha : a ∈ l) (surplus : List β) (f : α → List β) :
    (l.flatMap fun x => if a = x then surplus ++ f x else f x).Perm (surplus ++ l.flatMap f) := by
  induction l with
  | nil => cases ha
  | cons x l ih =>
    rw [List.nodup_cons] at hl
    rw [List.flatMap_cons, List.flatMap_cons]
    by_cases hax : a = x
    · subst hax
      have hrest : (l.flatMap fun x => if a = x then surplus ++ f x else f x) = l.flatMap f :=
        List.flatMap_congr fun x hx => if_neg fun h : a = x => hl.1 (h ▸ hx)
      rw [if_pos rfl, hrest, List.append_assoc]
    · have ha : a ∈ l := (List.mem_cons.mp ha).resolve_left hax
      rw [if_neg hax]
      exact ((ih hl.2 ha).append_left (f x)).trans (List.perm_append_comm_assoc _ _ _)

/-- **Nothing is lost or duplicated**: the outlines of all owners together are the sequence, up to
order. -/
theorem outline_perm {owners : List (Option Nat)} {ps : List Placed} (hun : ∀ p ∈ ps, p.Unfilled)
    (hnodup : (owners ++ ps.map (some ·.index)).Nodup) (h : Attached owners ps) :
    (owners.flatMap fun o => outline o ps).Perm (ps.map (·.declaration)) := by
  induction ps generalizing owners with
  | nil => simp [outline_nil]
  | cons p ps ih =>
    rw [List.forall_mem_cons] at hun
    obtain ⟨hparent, hrest⟩ := h
    have hnodup' : (some p.index :: (owners ++ ps.map (some ·.index))).Nodup :=
      (List.perm_middle.nodup_iff).mp hnodup
    have howners := (List.nodup_append.mp hnodup).1
    simp only [outline_cons hun.1]
    refine (flatMap_ite_perm howners hparent _ _).trans ?_
    rw [List.cons_append, List.map_cons]
    refine .cons _ ?_
    unfold Placed.inside
    split_ifs at hrest ⊢
    · exact ih hun.2 hnodup' hrest
    · exact ih hun.2 (List.nodup_cons.mp hnodup').2 hrest

/-! ## Nothing is moved -/

/-- The sequence lists a forest in pre-order: what belongs to a class stands directly behind it. -/
inductive Nested : Option Nat → List Placed → Prop
  | nil (owner : Option Nat) : Nested owner []
  | callable {owner : Option Nat} {p : Placed} {ps : List Placed} :
      p.parent = owner → p.isClass = false → Nested owner ps → Nested owner (p :: ps)
  | classLike {owner : Option Nat} {p : Placed} {members ps : List Placed} :
      p.parent = owner → p.isClass = true → Nested (some p.index) members → Nested owner ps →
      Nested owner (p :: (members ++ ps))

namespace Nested

theorem append {owner : Option Nat} {ps qs : List Placed} (hps : Nested owner ps)
    (hqs : Nested owner qs) : Nested owner (ps ++ qs) := by
  induction hps with
  | nil => exact hqs
  | callable hparent hclass _ ih => exact .callable hparent hclass (ih hqs)
  | classLike hparent hclass hmembers _ _ ih =>
    rw [List.cons_append, List.append_assoc]
    exact .classLike hparent hclass hmembers (ih hqs)

/-- A declaration in front of what is below it; only a class takes the place of the owner. -/
theorem cons {owner : Option Nat} {p : Placed} {ps : List Placed} (hparent : p.parent = owner)
    (h : Nested (if p.isClass then some p.index else owner) ps) : Nested owner (p :: ps) := by
  cases hclass : p.isClass with
  | true =>
    rw [if_pos hclass] at h
    simpa using Nested.classLike hparent hclass h (.nil owner)
  | false =>
    rw [if_neg (by simp [hclass])] at h
    exact .callable hparent hclass h

/-- Owners are the given one or stand in the sequence. -/
theorem parent_mem {owner : Option Nat} {ps : List Placed} (h : Nested owner ps) :
    ∀ q ∈ ps, q.parent ∈ owner :: ps.map (some ·.index) := by
  induction h with
  | nil => simp
  | @callable owner p ps hparent _ _ ih =>
    refine List.forall_mem_cons.mpr ⟨by simp [hparent], fun q hq => ?_⟩
    have := ih q hq
    simp only [List.map_cons, List.mem_cons] at this ⊢
    tauto
  | @classLike owner p members ps hparent _ _ _ ihm ih =>
    refine List.forall_mem_cons.mpr ⟨by simp [hparent], fun q hq => ?_⟩
    simp only [List.map_cons, List.map_append, List.mem_cons, List.mem_append] at ihm ih ⊢
    rcases List.mem_append.mp hq with hq | hq
    · have := ihm q hq
      tauto
    · have := ih q hq
      tauto

/-- No class of one sequence owns anything in another, if the owner and the indices differ. -/
theorem parent_ne {owner : Option Nat} {ps : List Placed} (h : Nested owner ps) {i : Nat}
    (howner : owner ≠ some i) (hi : i ∉ ps.map (·.index)) : ∀ q ∈ ps, q.parent ≠ some i := by
  intro q hq hparent
  rcases List.mem_cons.mp (h.parent_mem q hq) with hq | hq
  · exact howner (hq ▸ hparent)
  · rw [hparent, List.mem_map] at hq
    obtain ⟨r, hr, hri⟩ := hq
    exact hi (List.mem_map.mpr ⟨r, hr, Option.some.inj hri⟩)

/-- **Nothing is moved**: the outline of a sequence in pre-order is the sequence itself. -/
theorem outline_eq {owner : Option Nat} {ps : List Placed} (h : Nested owner ps)
    (hun : ∀ p ∈ ps, p.Unfilled) (hnodup : (ps.map (·.index)).Nodup)
    (howner : ∀ p ∈ ps, owner ≠ some p.index) : outline owner ps = ps.map (·.declaration) := by
  induction h with
  | nil => rfl
  | @callable owner p ps hparent hclass _ ih =>
    rw [List.forall_mem_cons] at hun howner
    rw [List.map_cons, List.nodup_cons] at hnodup
    rw [outline_cons hun.1, if_pos hparent, Placed.inside, hclass, ih hun.2 hnodup.2 howner.2]
    rfl
  | @classLike owner p members ps hparent hclass hmembers hps ihm ih =>
    simp only [List.forall_mem_cons, List.forall_mem_append] at hun howner
    simp only [List.map_cons, List.map_append, List.nodup_cons, List.mem_append, not_or,
      List.nodup_append] at hnodup
    obtain ⟨hp, hunm, hunps⟩ := hun
    obtain ⟨hpo, hom, hops⟩ := howner
    obtain ⟨⟨hpm, hpps⟩, hndm, hndps, hdisj⟩ := hnodup
    -- The rest of the sequence holds no members for the class or for anything inside of it.
    have hrest : ∀ q ∈ ps, q.parent ≠ some p.index := hps.parent_ne hpo hpps
    have hapart : ∀ m ∈ members, ∀ q ∈ ps, q.parent ≠ some m.index := fun m hm =>
      hps.parent_ne (hom m hm) fun h => hdisj _ (List.mem_map_of_mem hm) _ h rfl
    -- Nor does the class hold members for its owner.
    have hinner : ∀ m ∈ members, m.parent ≠ owner := by
      intro m hm hmo
      rcases List.mem_cons.mp (hmembers.parent_mem m hm) with h | h
      · exact hpo (hmo ▸ h)
      · obtain ⟨r, hr, hri⟩ := List.mem_map.mp h
        exact hom r hr (hmo.symm.trans hri.symm)
    have hmne : ∀ m ∈ members, some p.index ≠ some m.index := fun m hm h =>
      hpm (Option.some.inj h ▸ List.mem_map_of_mem hm)
    rw [outline_cons hp, if_pos hparent, Placed.inside, if_pos hclass,
      outline_append hunm hunps hapart, outline_append hunm hunps hapart,
      outline_eq_nil hunps hrest, outline_eq_nil hunm hinner, ihm hunm hndm hmne,
      ih hunps hndps hops]
    simp

end Nested

end Hollow
