import Hollow.Proofs.Paths
import Mathlib.Data.List.InsertIdx
import Mathlib.Logic.Relation

/-!
# Putting statements into bodies

What a verdict says depends on the statements of all bodies below it.  Comments and whitespace may
be put anywhere, at any depth and in any number, without changing what is empty; one statement that
counts, put anywhere, turns its callable and everything around it into content and nothing else.

* `Evaluation.Keeps`, `Verdict.Keeps` — two judgements agree, up to a change of the reason.
* `Weightless` — a statement that keeps every evaluation; `weightless_of_trivia`,
  `weightless_of_insignificant`.
* `Declaration.InsertsOne`, `Declaration.Inserts` — one insertion, and any number of them.
* `refusal?_insertAt` — insertions do not change whether and how a declaration fails.
* `keptBy_insertAt`, `keeps_nested?` — what one insertion keeps, from its place up to the top and
  at every other place; `keeps_of_inserts` — what a run of insertions keeps.
* `classify_inserts` — the contract for all three kinds of insertion.
-/

namespace Hollow

variable {noOps : Bool} {change : Reason → Reason → Prop}

/-! ## One body -/

/-- The outcomes agree on emptiness, and on the reason up to a given change. -/
def Evaluation.Keeps (change : Reason → Reason → Prop) (e e' : Evaluation) : Prop :=
  e'.isEmpty = e.isEmpty ∧ (e'.reason = e.reason ∨ change e.reason e'.reason)

theorem evaluate_perm {xs ys : List Statement} (h : xs.Perm ys) :
    evaluate noOps xs = evaluate noOps ys := by
  unfold evaluate
  rw [h.isEmpty_eq, h.any_eq, h.any_eq]

/-- One more statement of this kind never matters for emptiness. -/
def Weightless (noOps : Bool) (change : Reason → Reason → Prop) (s : Statement) : Prop :=
  ∀ xs, (evaluate noOps xs).Keeps change (evaluate noOps (s :: xs))

/-- The change that comments and whitespace make: a body has entries now. -/
def Reason.Commented (r r' : Reason) : Prop :=
  r = .noStatements ∧ r' = .onlyCommentsOrWhitespace

/-- A change among the reasons for which a body is judged. -/
def Reason.Judged (r r' : Reason) : Prop := r ≠ .noBody ∧ r' ≠ .noBody

theorem weightless_of_trivia {s : Statement} (hs : s.category.isTrivia = true) :
    Weightless noOps Reason.Commented s := by
  have hsig : s.category.isSignificant noOps = false := by simp [Category.isSignificant, hs]
  have hno : (s.category == .noOp) = false := by
    cases hc : s.category <;> simp_all [Category.isTrivia]
  intro xs
  cases xs with
  | nil => simp [evaluate, Evaluation.Keeps, Reason.Commented, hsig, hno]
  | cons x xs => simp [evaluate, Evaluation.Keeps, hsig, hno]

theorem evaluate_isEmpty (xs : List Statement) :
    (evaluate noOps xs).isEmpty = !xs.any (·.category.isSignificant noOps) := by
  unfold evaluate
  split_ifs with hnil hany
  · rw [List.isEmpty_iff.mp hnil]
    rfl
  · rw [hany]
    rfl
  · simp [hany]
  · simp [hany]

theorem weightless_of_insignificant {s : Statement}
    (hs : s.category.isSignificant noOps = false) : Weightless noOps Reason.Judged s := by
  have hjudged : ∀ xs : List Statement, (evaluate noOps xs).reason ≠ .noBody := by
    intro xs
    unfold evaluate
    split_ifs <;> simp
  intro xs
  refine ⟨?_, Or.inr ⟨hjudged xs, hjudged (s :: xs)⟩⟩
  rw [evaluate_isEmpty, evaluate_isEmpty, List.any_cons, hs, Bool.false_or]

theorem evaluate_cons_of_significant {s : Statement}
    (hs : s.category.isSignificant noOps = true) (xs : List Statement) :
    evaluate noOps (s :: xs) = ⟨false, .hasContent⟩ := by
  simp [evaluate, hs]

/-- The body with a statement put in at a position among its statements. -/
def Body.insert (k : Nat) (s : Statement) (body : Body) : Body :=
  { body with statements := body.statements.insertIdx k s }

theorem Weightless.keeps_bodyOutcome {s : Statement} (hs : Weightless noOps change s) (k : Nat)
    (body : Option Body) :
    (bodyOutcome noOps body).Keeps change (bodyOutcome noOps (body.map (Body.insert k s))) := by
  cases body with
  | none => exact ⟨rfl, Or.inl rfl⟩
  | some body =>
    simp only [Option.map_some, bodyOutcome, Body.insert]
    by_cases hk : k ≤ body.statements.length
    · rw [evaluate_perm (List.perm_insertIdx s _ hk)]
      exact hs _
    · -- Behind the end nothing is put in.
      rw [List.insertIdx_of_length_lt (by omega)]
      exact ⟨rfl, Or.inl rfl⟩

/-! ## Insertions -/

namespace Declaration

/-- The declaration with a statement put into its body. -/
def withStatement (k : Nat) (s : Statement) (d : Declaration) : Declaration :=
  { d with body := d.body.map (Body.insert k s) }

theorem ref_withStatement (k : Nat) (s : Statement) (d : Declaration) :
    (d.withStatement k s).ref = d.ref := by
  simp only [withStatement, ref, bodySpan, DeclarationRef.mk.injEq, true_and]
  cases d.body <;> rfl

/-- Put a statement into the body of the declaration that a path leads to. -/
def insertAt (path : List Nat) (k : Nat) (s : Statement) (d : Declaration) : Declaration :=
  d.modifyNested (withStatement k s) path

/-- The path leads to a callable with a body, and the position is one among its statements or
behind the last. -/
def HasPlace (d : Declaration) (path : List Nat) (k : Nat) : Prop :=
  ∃ c body, d.nested? path = some c ∧ c.kind.isCallable = true ∧ c.body = some body ∧
    k ≤ body.statements.length

/-- One statement is put into the body of a callable, at any depth. -/
def InsertsOne (P : Category → Prop) (d e : Declaration) : Prop :=
  ∃ path k s, d.HasPlace path k ∧ P s.category ∧ e = d.insertAt path k s

/-- Any number of statements is put into bodies of callables. -/
def Inserts (P : Category → Prop) : Declaration → Declaration → Prop :=
  Relation.ReflTransGen (InsertsOne P)

end Declaration

/-! ## Failures -/

theorem findSome?_modify {α β : Type} {f : α → α} {g : α → Option β} (h : ∀ a, g (f a) = g a)
    (l : List α) (i : Nat) : (l.modify i f).findSome? g = l.findSome? g := by
  induction l generalizing i with
  | nil => simp
  | cons a l ih =>
    cases i with
    | zero => simp [List.findSome?_cons, h]
    | succ i => simp [List.findSome?_cons, ih]

theorem refusal?_modifyNested {f : Declaration → Declaration}
    (hf : ∀ c, refusal? (classify noOps (f c)) = refusal? (classify noOps c)) (path : List Nat)
    (d : Declaration) :
    refusal? (classify noOps (d.modifyNested f path)) = refusal? (classify noOps d) := by
  induction path generalizing d with
  | nil => exact hf d
  | cons i path ih =>
    by_cases hk : d.kind.isCallable = true
    · have hk' : (d.modifyNested f (i :: path)).kind.isCallable = true := hk
      rw [refusal?_of_callable hk, refusal?_of_callable hk', Declaration.modifyNested,
        Option.isSome_map]
      rfl
    · have hk' : ¬(d.modifyNested f (i :: path)).kind.isCallable = true := hk
      rw [refusal?_of_class hk, refusal?_of_class hk', Declaration.modifyNested]
      cases d.members with
      | none => rfl
      | some ms => exact findSome?_modify ih ms i

/-- **Insertions do not change failures**: what fails, fails with the same fault. -/
theorem refusal?_insertAt (path : List Nat) (k : Nat) (s : Statement) (d : Declaration) :
    refusal? (classify noOps (d.insertAt path k s)) = refusal? (classify noOps d) := by
  apply refusal?_modifyNested
  intro c
  by_cases hk : c.kind.isCallable = true
  · have hk' : (c.withStatement k s).kind.isCallable = true := hk
    rw [refusal?_of_callable hk, refusal?_of_callable hk']
    rfl
  · have hk' : ¬(c.withStatement k s).kind.isCallable = true := hk
    rw [refusal?_of_class hk, refusal?_of_class hk']
    rfl

theorem exists_classify_insertAt {d : Declaration} {v : Verdict} (h : classify noOps d = .ok v)
    (path : List Nat) (k : Nat) (s : Statement) :
    ∃ w, classify noOps (d.insertAt path k s) = .ok w := by
  rw [← refusal?_eq_none_iff, refusal?_insertAt, h]
  rfl

/-! ## What an edit keeps -/

/-- The verdicts are about the same declaration and agree on emptiness.  The reasons agree too, but
for a given change in a callable. -/
structure Verdict.Keeps (change : Reason → Reason → Prop) (v w : Verdict) : Prop where
  declaration : w.declaration = v.declaration
  isEmpty : w.isEmpty = v.isEmpty
  reason : w.reason = v.reason ∨ v.declaration.kind.isCallable = true ∧ change v.reason w.reason

/-- A change that can be repeated and does not concern signatures. -/
structure Reason.Mild (change : Reason → Reason → Prop) : Prop where
  judged : ∀ {a b}, change a b → Judged a b
  trans : ∀ {a b c}, change a b → change b c → change a c

theorem Reason.mild_commented : Mild Commented where
  judged := by rintro _ _ ⟨rfl, rfl⟩; exact ⟨by decide, by decide⟩
  trans := by rintro _ _ _ ⟨rfl, rfl⟩ ⟨h, _⟩; cases h

theorem Reason.mild_judged : Mild Judged where
  judged := id
  trans := fun h₁ h₂ => ⟨h₁.1, h₂.2⟩

namespace Verdict.Keeps

theorem refl (v : Verdict) : v.Keeps change v := ⟨rfl, rfl, Or.inl rfl⟩

theorem trans (hch : Reason.Mild change) {u v w : Verdict} (huv : u.Keeps change v)
    (hvw : v.Keeps change w) : u.Keeps change w where
  declaration := hvw.declaration.trans huv.declaration
  isEmpty := hvw.isEmpty.trans huv.isEmpty
  reason := by
    rcases hvw.reason with h | ⟨hk, h⟩
    · rw [h]
      exact huv.reason
    · rw [huv.declaration] at hk
      rcases huv.reason with h' | ⟨_, h'⟩
      · exact Or.inr ⟨hk, h' ▸ h⟩
      · exact Or.inr ⟨hk, hch.trans h' h⟩

theorem isApplicable (hch : Reason.Mild change) {v w : Verdict} (h : v.Keeps change w) :
    w.isApplicable = v.isApplicable := by
  unfold Verdict.isApplicable
  rcases h.reason with hr | ⟨_, hr⟩
  · rw [hr]
  · have hj := hch.judged hr
    rw [bne_iff_ne.mpr hj.1, bne_iff_ne.mpr hj.2]

end Verdict.Keeps

/-- A class looks only at which members are empty and which have something to judge. -/
theorem memberOutcome_congr {vs ws : List Verdict}
    (h : List.Forall₂ (fun v w => Verdict.isApplicable w = v.isApplicable ∧ w.isEmpty = v.isEmpty)
      vs ws) : memberOutcome ws = memberOutcome vs := by
  have hnil : ws.isEmpty = vs.isEmpty := by cases h <;> rfl
  have hany : ws.any Verdict.isApplicable = vs.any Verdict.isApplicable := by
    clear hnil
    induction h with
    | nil => rfl
    | cons hvw _ ih => simp [hvw.1, ih]
  have hall : (ws.all fun v => !v.isApplicable || v.isEmpty) =
      vs.all fun v => !v.isApplicable || v.isEmpty := by
    clear hnil hany
    induction h with
    | nil => rfl
    | cons hvw _ ih => simp [hvw.1, hvw.2, ih]
  unfold memberOutcome
  rw [hnil, hany, hall]

/-- When the first declaration gets a verdict, so does the second, and the verdicts agree. -/
def KeptBy (noOps : Bool) (change : Reason → Reason → Prop) (d e : Declaration) : Prop :=
  ∀ v, classify noOps d = .ok v → ∃ w, classify noOps e = .ok w ∧ v.Keeps change w

theorem KeptBy.refl (d : Declaration) : KeptBy noOps change d d :=
  fun v hv => ⟨v, hv, .refl v⟩

theorem exists_verdicts_of_keptBy {ds es : List Declaration}
    (h : List.Forall₂ (KeptBy noOps change) ds es) {vs : List Verdict}
    (hvs : List.Forall₂ (fun d v => classify noOps d = .ok v) ds vs) :
    ∃ ws, List.Forall₂ (fun d v => classify noOps d = .ok v) es ws ∧
      List.Forall₂ (Verdict.Keeps change) vs ws := by
  induction h generalizing vs with
  | nil =>
    cases hvs
    exact ⟨[], .nil, .nil⟩
  | cons hde _ ih =>
    cases hvs with
    | cons hv hvs =>
      obtain ⟨w, hw, hvw⟩ := hde _ hv
      obtain ⟨ws, hws, hkeep⟩ := ih hvs
      exact ⟨w :: ws, .cons hw hws, .cons hvw hkeep⟩

theorem forall₂_modify {α : Type} {R : α → α → Prop} {f : α → α} (hrefl : ∀ a, R a a)
    (hf : ∀ a, R a (f a)) (l : List α) (i : Nat) : List.Forall₂ R l (l.modify i f) := by
  induction l generalizing i with
  | nil => simp
  | cons a l ih =>
    cases i with
    | zero => exact .cons (hf a) (List.forall₂_same.mpr fun b _ => hrefl b)
    | succ i => exact .cons (hrefl a) (ih i)

/-- **From the place of an edit up to the top**: a class around it judges as before. -/
theorem keptBy_modifyNested (hch : Reason.Mild change) {f : Declaration → Declaration}
    (hf : ∀ c, KeptBy noOps change c (f c)) (path : List Nat) (d : Declaration) :
    KeptBy noOps change d (d.modifyNested f path) := by
  induction path generalizing d with
  | nil => exact hf d
  | cons i path ih =>
    intro v hv
    rcases classify_cases hv with ⟨hk, hm, rfl⟩ | ⟨ms, vs, hk, hm, hvs, rfl⟩
    · -- Nothing is nested in a callable that gets a verdict.
      have hm' : (d.modifyNested f (i :: path)).members = none := by
        rw [Declaration.modifyNested, hm]
        rfl
      exact ⟨_, classify_callable hk hm', .refl _⟩
    · have hm' : (d.modifyNested f (i :: path)).members =
          some (ms.modify i (Declaration.modifyNested f path)) := by
        rw [Declaration.modifyNested, hm]
        rfl
      obtain ⟨ws, hws, hkeep⟩ := exists_verdicts_of_keptBy (forall₂_modify .refl ih ms i) hvs
      have hout : memberOutcome ws = memberOutcome vs :=
        memberOutcome_congr (hkeep.imp fun _ _ h => ⟨h.isApplicable hch, h.isEmpty⟩)
      refine ⟨_, classify_class hk hm' (classifyAll_eq_ok_iff.mpr hws), rfl, ?_, Or.inl ?_⟩
      · rw [hout]
      · rw [hout]

theorem keptBy_withStatement {s : Statement} (hs : Weightless noOps change s) (k : Nat)
    (c : Declaration) : KeptBy noOps change c (c.withStatement k s) := by
  intro v hv
  rcases classify_cases hv with ⟨hk, hm, rfl⟩ | ⟨ms, vs, hk, hm, hvs, rfl⟩
  · obtain ⟨hempty, hreason⟩ := hs.keeps_bodyOutcome k c.body
    refine ⟨_, classify_callable hk hm, c.ref_withStatement k s, hempty, ?_⟩
    exact hreason.imp_right fun h => ⟨hk, h⟩
  · -- The statements of a class are never judged.
    exact ⟨_, classify_class hk hm (classifyAll_eq_ok_iff.mpr hvs), c.ref_withStatement k s, rfl,
      Or.inl rfl⟩

theorem keptBy_insertAt (hch : Reason.Mild change) {s : Statement}
    (hs : Weightless noOps change s) (path : List Nat) (k : Nat) (d : Declaration) :
    KeptBy noOps change d (d.insertAt path k s) :=
  keptBy_modifyNested hch (keptBy_withStatement hs k) path d

/-! ## Every place -/

theorem rel_refl {α : Type} {R : α → α → Prop} (hR : ∀ a, R a a) (a : Option α) :
    Option.Rel R a a := by
  cases a with
  | none => exact .none
  | some a => exact .some (hR a)

theorem rel_trans {α : Type} {R : α → α → Prop} (hR : ∀ {a b c}, R a b → R b c → R a c)
    {a b c : Option α} (hab : Option.Rel R a b) (hbc : Option.Rel R b c) : Option.Rel R a c := by
  cases hab with
  | none => exact hbc
  | some hab =>
    cases hbc with
    | some hbc => exact .some (hR hab hbc)

section

variable {c : Option Declaration} {a b : Option Verdict}

theorem eq_of_rel_classify (ha : Option.Rel (fun d v => classify noOps d = .ok v) c a)
    (hb : Option.Rel (fun d v => classify noOps d = .ok v) c b) : b = a := by
  cases ha with
  | none =>
    cases hb
    rfl
  | some ha =>
    cases hb with
    | some hb => rw [Except.ok.inj (hb.symm.trans ha)]

theorem keeps_of_rel_classify {g : Declaration → Declaration}
    (hg : ∀ d, KeptBy noOps change d (g d))
    (ha : Option.Rel (fun d v => classify noOps d = .ok v) c a)
    (hb : Option.Rel (fun d v => classify noOps d = .ok v) (c.map g) b) :
    Option.Rel (Verdict.Keeps change) a b := by
  cases ha with
  | none =>
    cases hb
    exact .none
  | @some d v hv =>
    cases hb with
    | some hw =>
      obtain ⟨w, hw', hkeep⟩ := hg d v hv
      rw [Except.ok.inj (hw.symm.trans hw')]
      exact .some hkeep

end

section

variable {d : Declaration} {v w : Verdict} {path : List Nat} {k : Nat} {s : Statement}

/-- At a place that is not on the way to the insertion, the verdict is as it was. -/
theorem nested?_insertAt_elsewhere (hv : classify noOps d = .ok v)
    (hw : classify noOps (d.insertAt path k s) = .ok w) {q : List Nat} (hq : ¬q <+: path) :
    w.nested? q = v.nested? q := by
  have hplace : (d.insertAt path k s).nested? q = d.nested? q :=
    Declaration.nested?_modifyNested_elsewhere
      (fun c => (rfl : (c.withStatement k s).members = c.members)) hq d
  have hwq := nested?_classify hw q
  rw [hplace] at hwq
  exact eq_of_rel_classify (nested?_classify hv q) hwq

/-- **One insertion of a weightless statement** keeps the verdicts at every place. -/
theorem keeps_nested? (hch : Reason.Mild change) (hs : Weightless noOps change s)
    (hv : classify noOps d = .ok v) (hw : classify noOps (d.insertAt path k s) = .ok w)
    (q : List Nat) : Option.Rel (Verdict.Keeps change) (v.nested? q) (w.nested? q) := by
  by_cases hq : q <+: path
  · obtain ⟨rest, rfl⟩ := hq
    have hwq := nested?_classify hw q
    rw [Declaration.insertAt, Declaration.nested?_modifyNested_append] at hwq
    exact keeps_of_rel_classify (keptBy_insertAt hch hs rest k) (nested?_classify hv q) hwq
  · rw [nested?_insertAt_elsewhere hv hw hq]
    exact rel_refl .refl _

end

/-- **A run of insertions**: failures stay the same, and the verdicts are kept at every place. -/
theorem keeps_of_inserts (hch : Reason.Mild change) {P : Category → Prop}
    (hP : ∀ s : Statement, P s.category → Weightless noOps change s) {d e : Declaration}
    (h : d.Inserts P e) :
    (∀ fault, classify noOps e = .error fault ↔ classify noOps d = .error fault) ∧
      ∀ v, classify noOps d = .ok v → ∃ w, classify noOps e = .ok w ∧
        ∀ q, Option.Rel (Verdict.Keeps change) (v.nested? q) (w.nested? q) := by
  induction h with
  | refl =>
    exact ⟨fun _ => Iff.rfl, fun v hv => ⟨v, hv, fun q => rel_refl .refl _⟩⟩
  | tail _ hstep ih =>
    obtain ⟨path, k, s, _, hs, rfl⟩ := hstep
    refine ⟨fun fault => ?_, fun v hv => ?_⟩
    · rw [← ih.1 fault, ← refusal?_eq_some_iff, refusal?_insertAt, refusal?_eq_some_iff]
    · obtain ⟨u, hu, hvu⟩ := ih.2 v hv
      obtain ⟨w, hw⟩ := exists_classify_insertAt hu path k s
      exact ⟨w, hw, fun q => rel_trans (.trans hch) (hvu q) (keeps_nested? hch (hP s hs) hu hw q)⟩

/-! ## Content -/

theorem hasContent_withStatement {c : Declaration} (hk : c.kind.isCallable = true) {body : Body}
    (hb : c.body = some body) {k : Nat} (hle : k ≤ body.statements.length) {s : Statement}
    (hs : s.category.isSignificant noOps = true) : (c.withStatement k s).HasContent noOps := by
  refine ⟨hk, body.insert k s, by rw [Declaration.withStatement, hb]; rfl, ?_⟩
  rw [Body.insert, evaluate_perm (List.perm_insertIdx s _ hle), evaluate_cons_of_significant hs]

theorem Declaration.ref_insertAt (path : List Nat) (k : Nat) (s : Statement) (d : Declaration) :
    (d.insertAt path k s).ref = d.ref := by
  cases path with
  | nil => exact d.ref_withStatement k s
  | cons i path => rfl

/-- A place below a declaration on the way is a place below that declaration. -/
theorem Declaration.HasPlace.exists_nested {d : Declaration} {q rest : List Nat} {k : Nat}
    (h : d.HasPlace (q ++ rest) k) : ∃ c, d.nested? q = some c ∧ c.HasPlace rest k := by
  obtain ⟨t, body, ht, hbody⟩ := h
  rw [nested?_append, Option.bind_eq_some_iff] at ht
  obtain ⟨c, hc, ht⟩ := ht
  exact ⟨c, hc, t, body, ht, hbody⟩

/-- What holds a statement that counts has content. -/
theorem hasContent_insertAt {d : Declaration} {path : List Nat} {k : Nat} {s : Statement}
    {w : Verdict} (hplace : d.HasPlace path k) (hs : s.category.isSignificant noOps = true)
    (hw : classify noOps (d.insertAt path k s) = .ok w) : w.reason = .hasContent := by
  obtain ⟨c, body, hc, hk, hb, hle⟩ := hplace
  have hnested : (d.insertAt path k s).nested? path = some (c.withStatement k s) := by
    have h := Declaration.nested?_modifyNested_append (Declaration.withStatement k s) path [] d
    rw [List.append_nil, hc] at h
    exact h
  exact (reason_eq_hasContent_iff hw).mpr
    ⟨_, Declaration.mem_walk_of_nested? hnested, hasContent_withStatement hk hb hle hs⟩

/-- **On the way to a statement that counts**, everything has content. -/
theorem hasContent_on_the_way {d : Declaration} {path q : List Nat} {k : Nat} {s : Statement}
    {v w : Verdict} (hplace : d.HasPlace path k) (hs : s.category.isSignificant noOps = true)
    (hv : classify noOps d = .ok v) (hw : classify noOps (d.insertAt path k s) = .ok w)
    (hq : q <+: path) :
    ∃ a b, v.nested? q = some a ∧ w.nested? q = some b ∧ b.declaration = a.declaration ∧
      b.isEmpty = false ∧ b.reason = .hasContent := by
  obtain ⟨rest, rfl⟩ := hq
  obtain ⟨c, hc, hrest⟩ := hplace.exists_nested
  have hvq := nested?_classify hv q
  have hwq := nested?_classify hw q
  rw [Declaration.insertAt, Declaration.nested?_modifyNested_append, hc] at hwq
  rw [hc] at hvq
  generalize v.nested? q = a at hvq ⊢
  generalize w.nested? q = b at hwq ⊢
  cases hvq with
  | @some _ a ha =>
    cases hwq with
    | @some _ b hb =>
      have hreason : b.reason = .hasContent := hasContent_insertAt hrest hs hb
      have hfull : ¬b.isEmpty = true := fun he => ((classify_consistent hb).mp he).1 hreason
      refine ⟨a, b, rfl, rfl, ?_, by simpa using hfull, hreason⟩
      rw [classify_declaration ha, classify_declaration hb]
      exact c.ref_insertAt rest k s

/-! ## The contract -/

/-- **What insertions do to verdicts.**  Any number of comments and whitespace, in any bodies at any
depth, changes neither failures nor the shape of the verdicts nor what is empty; the only change is
that a callable without statements now has only comments or whitespace.  Where filler is taken as
empty, it may be put in as well without changing what is empty.  One statement that counts gives
content to its callable and to all that is around it, and leaves every other verdict as it was. -/
theorem classify_inserts (noOps : Bool) (d : Declaration) :
    (∀ e, d.Inserts (· ∈ [.comment, .whitespace]) e →
      (∀ fault, classify noOps e = .error fault ↔ classify noOps d = .error fault) ∧
        ∀ v, classify noOps d = .ok v → ∃ w, classify noOps e = .ok w ∧
          ∀ q, Option.Rel (Verdict.Keeps Reason.Commented) (v.nested? q) (w.nested? q)) ∧
    (∀ e, d.Inserts (· ∈ [.comment, .whitespace, .noOp]) e →
      (∀ fault, classify true e = .error fault ↔ classify true d = .error fault) ∧
        ∀ v, classify true d = .ok v → ∃ w, classify true e = .ok w ∧
          ∀ q, Option.Rel (Verdict.Keeps Reason.Judged) (v.nested? q) (w.nested? q)) ∧
    ∀ path k s, d.HasPlace path k →
      s.category ∈ [Category.expression, .controlFlow, .declaration, .other] →
      ∀ v, classify noOps d = .ok v → ∃ w, classify noOps (d.insertAt path k s) = .ok w ∧
        (∀ q, q <+: path → ∃ a b, v.nested? q = some a ∧ w.nested? q = some b ∧
          b.declaration = a.declaration ∧ b.isEmpty = false ∧ b.reason = .hasContent) ∧
        ∀ q, ¬q <+: path → w.nested? q = v.nested? q := by
  refine ⟨fun e he => ?_, fun e he => ?_, fun path k s hplace hs v hv => ?_⟩
  · refine keeps_of_inserts Reason.mild_commented (fun s hs => weightless_of_trivia ?_) he
    simp only [List.mem_cons, List.not_mem_nil, or_false] at hs
    rcases hs with h | h <;> simp [h, Category.isTrivia]
  · refine keeps_of_inserts Reason.mild_judged (fun s hs => weightless_of_insignificant ?_) he
    simp only [List.mem_cons, List.not_mem_nil, or_false] at hs
    rcases hs with h | h | h <;> simp [h, Category.isSignificant, Category.isTrivia]
  · have hsig : s.category.isSignificant noOps = true := by
      simp only [List.mem_cons, List.not_mem_nil, or_false] at hs
      rcases hs with h | h | h | h <;> simp [h, Category.isSignificant, Category.isTrivia]
    obtain ⟨w, hw⟩ := exists_classify_insertAt hv path k s
    exact ⟨w, hw, fun q hq => hasContent_on_the_way hplace hsig hv hw hq,
      fun q hq => nested?_insertAt_elsewhere hv hw hq⟩

/-- A class with a method without statements and a class with a method that holds filler. -/
def stubbedClass : Declaration :=
  ⟨0, .classLike, some "Shape", default, none, some
    [⟨1, .method, some "area", default, some ⟨none, []⟩, none⟩,
      ⟨2, .classLike, some "Pen", default, none, some
        [⟨3, .method, some "draw", default, some ⟨none, [⟨.noOp, "pass", default⟩]⟩, none⟩]⟩]⟩

theorem stubbedClass_inserts :
    (∃ e v w, stubbedClass.Inserts (· ∈ [.comment, .whitespace]) e ∧
      classify false stubbedClass = .ok v ∧ classify false e = .ok w ∧
      (w.nested? [0]).map (·.reason) = some .onlyCommentsOrWhitespace ∧
      ∀ q, Option.Rel (Verdict.Keeps Reason.Commented) (v.nested? q) (w.nested? q)) ∧
    (∃ e v w, stubbedClass.Inserts (· ∈ [.comment, .whitespace, .noOp]) e ∧
      classify true stubbedClass = .ok v ∧ classify true e = .ok w ∧
      (w.nested? [0]).map (·.reason) = some .onlyNoOps ∧
      ∀ q, Option.Rel (Verdict.Keeps Reason.Judged) (v.nested? q) (w.nested? q)) ∧
    ∃ v w, classify true stubbedClass = .ok v ∧
      classify true (stubbedClass.insertAt [1, 0] 1 ⟨.expression, "call", default⟩) = .ok w ∧
      (w.nested? [1]).map (·.reason) = some .hasContent ∧ w.nested? [0] = v.nested? [0] := by
  have harea : stubbedClass.HasPlace [0] 0 := ⟨_, _, rfl, rfl, rfl, Nat.le_refl _⟩
  have hdraw : stubbedClass.HasPlace [1, 0] 1 := ⟨_, _, rfl, rfl, rfl, Nat.le_refl _⟩
  refine ⟨?_, ?_, ?_⟩
  · have hins : stubbedClass.Inserts (· ∈ [.comment, .whitespace])
        ((stubbedClass.insertAt [0] 0 ⟨.comment, "comment", default⟩).insertAt [1, 0] 1
          ⟨.whitespace, "newline", default⟩) :=
      .tail (.single ⟨[0], 0, _, harea, by simp, rfl⟩)
        ⟨[1, 0], 1, _, ⟨_, _, rfl, rfl, rfl, Nat.le_refl _⟩, by simp, rfl⟩
    obtain ⟨w, hw, hkeep⟩ := ((classify_inserts false stubbedClass).1 _ hins).2 _ rfl
    cases hw
    exact ⟨_, _, _, hins, rfl, rfl, rfl, hkeep⟩
  · have hins : stubbedClass.Inserts (· ∈ [.comment, .whitespace, .noOp])
        (stubbedClass.insertAt [0] 0 ⟨.noOp, "pass", default⟩) :=
      .single ⟨[0], 0, _, harea, by simp, rfl⟩
    obtain ⟨w, hw, hkeep⟩ := ((classify_inserts true stubbedClass).2.1 _ hins).2 _ rfl
    cases hw
    exact ⟨_, _, _, hins, rfl, rfl, rfl, hkeep⟩
  · obtain ⟨w, hw, _, helse⟩ := (classify_inserts true stubbedClass).2.2 [1, 0] 1
      ⟨.expression, "call", default⟩ hdraw (by simp) _ rfl
    cases hw
    exact ⟨_, _, rfl, rfl, rfl, helse [0] (by decide)⟩

end Hollow
