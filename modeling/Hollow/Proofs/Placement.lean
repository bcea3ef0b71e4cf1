import Hollow.Proofs.Forest

/-!
# Placing declarations

Candidates are dealt with one after the other.  `placeAll_skip` and `placeAll_abort` give the
result of a whole run in closed form: the declarations placed (`placedFrom`) do not depend on the
policy, and the policy only decides about the faults.

* `PlacedInv` — what holds of the placed declarations after every step, for every syntax tree:
  indices and identifiers count up, members are yet to be filled in and come behind their class,
  and a class holds no statements.
* `placedFrom_inv` — the invariant after a run.
* `map_placedFrom` — one declaration is placed for each candidate with a rule, in order.
* `declarations_of_canonicalize` — what a unit holds, whatever the policy was.
-/

namespace Hollow

/-! ## Runs in closed form -/

namespace Grammar

variable (g : Grammar) (source : Source)

/-- The candidate stands for some kind of declaration. -/
def isMapped (c : Candidate) : Bool := (g.ruleOf c).isSome

/-- The complaint about a candidate that stands for no kind of declaration. -/
def fault? (c : Candidate) : Option Fault :=
  if g.isMapped c then none else some (.unsupported c.site.node.kind (c.site.node.span source))

/-- The declarations after a run, given those before it. -/
def placedFrom (placed : List Placed) : List Candidate → List Placed
  | [] => placed
  | c :: cs =>
    match g.ruleOf c with
    | some rule => placedFrom (placed ++ [g.place source placed c.site rule]) cs
    | none => placedFrom placed cs

variable {g source}

/-- **A run that skips** always ends; it leaves one diagnostic for each candidate without a rule. -/
theorem placeAll_skip (p : Progress) (cs : List Candidate) :
    g.placeAll .skip source p cs =
      .ok ⟨g.placedFrom source p.placed cs, p.skipped ++ cs.filterMap (g.fault? source)⟩ := by
  induction cs generalizing p with
  | nil => simp [placeAll, placedFrom]
  | cons c cs ih =>
    rw [placeAll, step, placedFrom, List.filterMap_cons]
    cases hc : g.ruleOf c with
    | some rule => simp [ih, fault?, isMapped, hc]
    | none => simp [ih, fault?, isMapped, hc]

/-- **A run that aborts** ends with the first complaint, or else as one that skips. -/
theorem placeAll_abort (p : Progress) (cs : List Candidate) :
    g.placeAll .abort source p cs =
      match cs.filterMap (g.fault? source) with
      | [] => .ok ⟨g.placedFrom source p.placed cs, p.skipped⟩
      | fault :: _ => .error fault := by
  induction cs generalizing p with
  | nil => rfl
  | cons c cs ih =>
    rw [placeAll, step, placedFrom, List.filterMap_cons]
    cases hc : g.ruleOf c with
    | some rule => simp [ih, fault?, isMapped, hc]
    | none => simp [fault?, isMapped, hc]

theorem placed_of_placeAll {policy : UnsupportedPolicy} {p q : Progress} {cs : List Candidate}
    (h : g.placeAll policy source p cs = .ok q) : q.placed = g.placedFrom source p.placed cs := by
  cases policy with
  | skip =>
    rw [placeAll_skip, Except.ok.injEq] at h
    rw [← h]
  | abort =>
    rw [placeAll_abort] at h
    split at h
    · rw [Except.ok.injEq] at h
      rw [← h]
    · cases h

/-- What does not depend on the declarations placed before can be read off the candidates. -/
theorem map_placedFrom {α : Type} {f : Placed → α} {h : Candidate → α}
    (hfh : ∀ placed c rule, f (g.place source placed c.site rule) = h c) (placed : List Placed)
    (cs : List Candidate) :
    (g.placedFrom source placed cs).map f = placed.map f ++ (cs.filter g.isMapped).map h := by
  induction cs generalizing placed with
  | nil => simp [placedFrom]
  | cons c cs ih =>
    rw [placedFrom, List.filter_cons]
    cases hc : g.ruleOf c with
    | some rule => simp [ih, isMapped, hc, hfh]
    | none => simp [ih, isMapped, hc]

theorem length_placedFrom (cs : List Candidate) :
    (g.placedFrom source [] cs).length = (cs.filter g.isMapped).length := by
  have h : (g.placedFrom source [] cs).map (fun _ => ()) = _ :=
    map_placedFrom (h := fun _ => ()) (fun _ _ _ => rfl) [] cs
  simpa using congrArg List.length h

end Grammar

/-! ## The invariant of placing -/

theorem Site.mem_of_nearest {s : Site} {placed : List Placed} {ok : Placed → Bool} {p : Placed}
    (h : s.nearest placed ok = some p) : p ∈ placed ∧ ok p = true := by
  obtain ⟨a, _, ha⟩ := List.exists_of_findSome?_eq_some h
  have hok := List.find?_some ha
  exact ⟨List.mem_of_find?_eq_some ha, (Bool.and_eq_true_iff.mp hok).2⟩

/-- What was placed for nodes that are no ancestors does not matter. -/
theorem Site.nearest_append {s : Site} {placed new : List Placed}
    (h : ∀ a ∈ s.ancestors, ∀ p ∈ new, p.number ≠ a.1) (ok : Placed → Bool) :
    s.nearest (placed ++ new) ok = s.nearest placed ok := by
  obtain ⟨number, node, ancestors⟩ := s
  simp only [Site.nearest] at h ⊢
  induction ancestors with
  | nil => rfl
  | cons a ancestors ih =>
    rw [List.forall_mem_cons] at h
    have hnone : (new.find? fun p => p.number == a.1 && ok p) = none := by
      rw [List.find?_eq_none]
      intro p hp hok
      simp [h.1 p hp] at hok
    rw [List.findSome?_cons, List.findSome?_cons, List.find?_append, hnone, Option.or_none,
      ih h.2]

/-- A declaration can be put at the end when its owner is there. -/
theorem Attached.append_singleton {owners : List (Option Nat)} {ps : List Placed} {p : Placed}
    (hps : Attached owners ps)
    (hp : p.parent ∈ owners ∨ ∃ q ∈ ps, q.isClass = true ∧ p.parent = some q.index) :
    Attached owners (ps ++ [p]) := by
  induction ps generalizing owners with
  | nil => exact ⟨by simpa using hp, trivial⟩
  | cons q ps ih =>
    obtain ⟨hq, hps⟩ := hps
    refine ⟨hq, ih hps ?_⟩
    rcases hp with hp | ⟨r, hr, hrc, hpr⟩
    · left
      split_ifs
      · exact List.mem_cons_of_mem _ hp
      · exact hp
    · rcases List.mem_cons.mp hr with rfl | hr
      · left
        rw [if_pos hrc, hpr]
        exact List.mem_cons_self
      · exact Or.inr ⟨r, hr, hrc, hpr⟩

/-- A class has a member list and no statements, a callable no member list. -/
structure Declaration.WellFormed (d : Declaration) : Prop where
  callable : d.kind.isCallable = true → d.members = none
  classLike : d.kind = .classLike →
    d.members.isSome = true ∧ ∀ body, d.body = some body → body.statements = []

theorem Declaration.wellFormed_shell {d : Declaration} : d.shell.WellFormed ↔ d.WellFormed := by
  have hnone : d.shell.members = none ↔ d.members = none := Option.map_eq_none_iff
  have hsome : d.shell.members.isSome = d.members.isSome := Option.isSome_map
  exact ⟨fun ⟨h₁, h₂⟩ => ⟨fun hk => hnone.mp (h₁ hk), fun hk => hsome ▸ h₂ hk⟩,
    fun ⟨h₁, h₂⟩ => ⟨fun hk => hnone.mpr (h₁ hk), fun hk => hsome ▸ h₂ hk⟩⟩

/-- What holds of the placed declarations after every step. -/
structure PlacedInv (ps : List Placed) : Prop where
  index : ps.map (·.index) = List.range ps.length
  id : ∀ p ∈ ps, p.declaration.id = p.index % UInt32.size
  unfilled : ∀ p ∈ ps, p.Unfilled
  wellFormed : ∀ p ∈ ps, p.declaration.WellFormed
  attached : Attached [none] ps

theorem PlacedInv.nil : PlacedInv [] := ⟨rfl, by simp, by simp, by simp, trivial⟩

namespace Grammar

variable {g : Grammar} {source : Source}

theorem place_unfilled (placed : List Placed) (s : Site) (rule : Rule) :
    (g.place source placed s rule).Unfilled := by
  simp only [Placed.Unfilled, Placed.isClass, place, beq_iff_eq]

theorem place_wellFormed (placed : List Placed) (s : Site) (rule : Rule) :
    (g.place source placed s rule).declaration.WellFormed := by
  refine ⟨fun hk => ?_, fun hk => ?_⟩
  · simp only [place] at hk ⊢
    rw [if_neg]
    intro hclass
    rw [hclass] at hk
    cases hk
  · simp only [place] at hk ⊢
    rw [if_pos hk, if_pos hk]
    refine ⟨rfl, fun body hbody => ?_⟩
    obtain ⟨b, _, rfl⟩ := Option.map_eq_some_iff.mp hbody
    rfl

theorem place_parent (placed : List Placed) (s : Site) (rule : Rule) :
    (g.place source placed s rule).parent = none ∨
      ∃ q ∈ placed, q.isClass = true ∧ (g.place source placed s rule).parent = some q.index := by
  simp only [place]
  cases h : s.nearest placed Placed.isClass with
  | none => exact Or.inl rfl
  | some q =>
    obtain ⟨hq, hclass⟩ := Site.mem_of_nearest h
    exact Or.inr ⟨q, hq, hclass, rfl⟩

/-- One step keeps the invariant. -/
theorem place_inv {placed : List Placed} (h : PlacedInv placed) (s : Site) (rule : Rule) :
    PlacedInv (placed ++ [g.place source placed s rule]) where
  index := by
    rw [List.map_append, h.index, List.length_append, List.length_singleton, List.range_succ]
    rfl
  id := List.forall_mem_append.mpr ⟨h.id, by simp [place]⟩
  unfilled := List.forall_mem_append.mpr ⟨h.unfilled, by simpa using place_unfilled placed s rule⟩
  wellFormed :=
    List.forall_mem_append.mpr ⟨h.wellFormed, by simpa using place_wellFormed placed s rule⟩
  attached := h.attached.append_singleton (by simpa using place_parent placed s rule)

/-- **The invariant holds after every run.** -/
theorem placedFrom_inv {placed : List Placed} (h : PlacedInv placed) (cs : List Candidate) :
    PlacedInv (g.placedFrom source placed cs) := by
  induction cs generalizing placed with
  | nil => exact h
  | cons c cs ih =>
    rw [placedFrom]
    cases g.ruleOf c with
    | some rule => exact ih (place_inv h c.site rule)
    | none => exact ih h

/-! ## Units -/

/-- Skipping always leads to a unit. -/
theorem exists_canonicalize_skip (g : Grammar) (language path : String) (source : Source)
    (root : Node) : ∃ unit, g.canonicalize language .skip path source root = .ok unit := by
  rw [canonicalize, placeAll_skip]
  exact ⟨_, rfl⟩

variable {language path : String} {policy : UnsupportedPolicy} {root : Node} {unit : SourceUnit}

/-- What a unit holds, whatever the policy was. -/
theorem declarations_of_canonicalize
    (h : g.canonicalize language policy path source root = .ok unit) :
    unit.declarations = forest none (g.placedFrom source [] (g.candidates root)) := by
  rw [canonicalize] at h
  split at h
  · cases h
  · rename_i progress hprogress
    rw [Except.ok.injEq] at h
    rw [← h, placed_of_placeAll hprogress]

end Grammar

end Hollow
