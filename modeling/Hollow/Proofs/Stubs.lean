import Hollow.Proofs.Content
import Hollow.Proofs.Insertion

/-!
# Stubs

A stub holds nothing that runs: punctuation, comments, blanks, filler, and semicolons.  All of it is
set aside when the body is judged, with one exception: a semicolon that stands in a block by itself
is set aside only where the table lists it.  So a stub is empty exactly if no semicolon is left
over, and two fillers on one line are content in a language whose table does not list semicolons.

* `Grammar.IsIdle` — a child of a block that is set aside;
* `Grammar.IsFiller` — one that stubs are written with;
* `Grammar.IsStray` — a semicolon that the table does not account for;
* `evaluate_of_isFiller` — the verdict on a block of filler;
* `stub_is_empty_iff`, `semicolon_is_content` — the result, and a stub that is not empty.
-/

namespace Hollow.Grammar

/-! ## Filler -/

/-- The mark that ends statements or keeps them apart. -/
def semicolon : String := ";"

section

variable (g : Grammar) (source : Source) (n : Node)

/-- A child of a block that is set aside: punctuation, a comment or filler of the table, or else
something that is missing or blank. -/
def IsIdle : Prop :=
  n.kind ∈ g.delimiters ∨ n.kind ∈ g.commentKinds ∨ n.isMissing = true ∨
    isBlankText (n.text source) = true ∨ n.kind ∈ g.noOpKinds

/-- A child of a block that stubs are written with: one that is set aside, or a semicolon. -/
def IsFiller : Prop := g.IsIdle source n ∨ n.kind = semicolon ∧ n.isNamed = false

/-- A semicolon that is not set aside. -/
def IsStray : Prop := n.kind = semicolon ∧ ¬g.IsIdle source n

instance : Decidable (g.IsIdle source n) := inferInstanceAs (Decidable (_ ∨ _ ∨ _ ∨ _ ∨ _))

instance : Decidable (g.IsFiller source n) := inferInstanceAs (Decidable (_ ∨ _ ∧ _))

instance : Decidable (g.IsStray source n) := inferInstanceAs (Decidable (_ ∧ ¬_))

/-- What an expression statement amounts to by its only child is nothing that runs. -/
def SoleAreIdle : Prop := ∀ e ∈ g.soleExpressions, e.2.isSignificant true = false

instance : Decidable g.SoleAreIdle :=
  inferInstanceAs (Decidable (∀ e ∈ g.soleExpressions, e.2.isSignificant true = false))

end

/-- The languages whose tables list semicolons. -/
theorem semicolon_listed : ∀ l ∈ builtinLanguages, l.id = "java" ∨ l.id = "scala" →
    semicolon ∈ l.grammar.delimiters ∨ semicolon ∈ l.grammar.noOpKinds := by
  decide

theorem soleAreIdle_builtin : ∀ l ∈ builtinLanguages, l.grammar.SoleAreIdle := by decide

variable {g : Grammar} {source : Source} {n : Node}

theorem isSignificant_of_soleCategory (hg : g.SoleAreIdle) {category : Category}
    (h : g.soleCategory n = some category) : category.isSignificant true = false := by
  unfold soleCategory at h
  split_ifs at h
  split at h
  · rename_i inner _
    obtain ⟨front, back, hsplit, _⟩ := List.lookup_eq_some_iff.mp h
    exact hg (inner.kind, category) (by simp [hsplit])
  · cases h

/-- What is set aside is no statement, or one that does not count. -/
theorem isSignificant_of_isIdle (hg : g.SoleAreIdle) (hn : g.IsIdle source n) {st : Statement}
    (h : g.statement? source n = some st) : st.category.isSignificant true = false := by
  obtain ⟨category, hcategory, rfl⟩ := Option.map_eq_some_iff.mp h
  rcases Option.or_eq_some_iff.mp hcategory with hsole | ⟨_, htable⟩
  · exact isSignificant_of_soleCategory hg hsole
  · unfold categoryOf at htable
    split_ifs at htable with hdelimiter hcomment hblank hnoOp
    · obtain rfl := Option.some.inj htable
      rfl
    · obtain rfl := Option.some.inj htable
      rfl
    · obtain rfl := Option.some.inj htable
      rfl
    all_goals
      simp only [List.contains_iff_mem, Bool.or_eq_true, not_or] at hdelimiter hcomment hblank hnoOp
      simp [IsIdle, *] at hn

/-- A semicolon that is not set aside counts. -/
theorem exists_statement_of_isStray (hn : g.IsStray source n) :
    ∃ st, g.statement? source n = some st ∧ st.category.isSignificant true = true := by
  obtain ⟨hkind, hidle⟩ := hn
  simp only [IsIdle, not_or] at hidle
  obtain ⟨hdelimiter, hcomment, hmissing, hblank, hnoOp⟩ := hidle
  have hne : ¬(n.kind == expressionStatement) = true := by
    rw [hkind]
    decide
  have hsole : g.soleCategory n = none := if_neg hne
  have hthere : ¬(n.isMissing || isBlankText (n.text source)) = true := by
    simp [hmissing, hblank]
  simp only [statement?, hsole, Option.none_or, categoryOf, List.contains_iff_mem, hdelimiter,
    hcomment, hthere, hnoOp, hne, Bool.false_eq_true, if_false]
  split_ifs
  all_goals exact ⟨_, rfl, rfl⟩

/-- **A block of filler** is empty exactly if no semicolon is left over. -/
theorem evaluate_of_isFiller (hg : g.SoleAreIdle) {children : List Node}
    (hfiller : ∀ n ∈ g.flattenAll children, g.IsFiller source n) :
    (evaluate true (g.statementsOfAll source children)).isEmpty = true ↔
      ∀ n ∈ g.flattenAll children, ¬g.IsStray source n := by
  rw [evaluate_isEmpty, Bool.not_eq_true', List.any_eq_false, statementsOfAll_eq]
  constructor
  · intro hnone n hn hstray
    obtain ⟨st, hst, hcounts⟩ := exists_statement_of_isStray hstray
    exact hnone st (List.mem_filterMap.mpr ⟨n, hn, hst⟩) hcounts
  · intro hnone st hst
    obtain ⟨n, hn, hst⟩ := List.mem_filterMap.mp hst
    have hidle : g.IsIdle source n := by
      rcases hfiller n hn with hidle | ⟨hkind, _⟩
      · exact hidle
      · exact Classical.byContradiction fun hidle => hnone n hn ⟨hkind, hidle⟩
    simpa using isSignificant_of_isIdle hg hidle hst

/-! ## Verdicts on stubs -/

/-- A site with a declaration is judged, whatever else is required. -/
theorem exists_verdict_of_declarationAt {root : Node} {language path : String}
    {policy : UnsupportedPolicy} {unit : SourceUnit} {s : Site} {d : Declaration}
    (hunit : g.canonicalize language policy path source root = .ok unit)
    (hd : g.declarationAt source root s = some d) (options : Options) :
    ∃ u, classifyUnit options unit = .ok u ∧
      ∃ v ∈ u.report.allVerdicts, g.HasVerdict source root options.noOpsAreEmpty s v := by
  have hmem := mem_walkAll_of_declarationAt hunit hd
  have hjudged : ¬Refused options unit := by
    rintro ⟨_, hnil⟩
    rw [hnil] at hmem
    cases hmem
  obtain ⟨spot, hspot, hverdict⟩ :=
    exists_spot_of_mem_walkAll (wellFormed_of_canonicalize hunit) hmem
  exact ⟨_, classifyUnit_of_not_refused hjudged, _, Report.verdict_mem_allVerdicts hspot, d, hd,
    hverdict⟩

/-- The verdict on a callable with a block is that on the statements of the block. -/
theorem isEmpty_of_hasVerdict {root : Node} {s : Site} {rule : Rule} {b : Node} {noOps : Bool}
    {v : Verdict} (hs : s ∈ root.sites) (hrule : g.rule? s = some rule)
    (hcallable : rule.kind.isCallable = true) (hb : g.bodyNode s.node = some b)
    (hblock : b.kind ∈ g.blockKinds) (hv : g.HasVerdict source root noOps s v) :
    v.isEmpty = (evaluate noOps (g.statementsOfAll source b.children)).isEmpty := by
  obtain ⟨d, hd, hkind, hbody⟩ := exists_declaration_of_block source hs hrule hcallable hb hblock
  obtain ⟨e, he, hclassify⟩ := hv
  obtain rfl := Option.some.inj (hd.symm.trans he)
  rcases classify_cases hclassify with ⟨_, _, rfl⟩ | ⟨_, _, hclass, _⟩
  · rw [hbody]
    rfl
  · rw [hclass] at hkind
    cases hkind

/-- **Stubs are empty unless a semicolon is left over.**  In every built-in language, for every
source, tree and policy, with no-ops taken as empty: a callable whose block holds filler only is
judged, and it is judged empty if and only if no semicolon is left over in the block.  In Java and
Scala, whose tables list semicolons, it is always judged empty. -/
theorem stub_is_empty_iff {l : Language} (hl : l ∈ builtinLanguages) {policy : UnsupportedPolicy}
    {path : String} {source : Source} {root : Node} {unit : SourceUnit}
    (hunit : l.grammar.canonicalize l.id policy path source root = .ok unit) {options : Options}
    (hnoOps : options.noOpsAreEmpty = true) {s : Site} {rule : Rule} {b : Node}
    (hs : s ∈ root.sites) (hrule : l.grammar.rule? s = some rule)
    (hcallable : rule.kind.isCallable = true) (hb : l.grammar.bodyNode s.node = some b)
    (hblock : b.kind ∈ l.grammar.blockKinds)
    (hfiller : ∀ n ∈ l.grammar.flattenAll b.children, l.grammar.IsFiller source n) :
    ∃ u, classifyUnit options unit = .ok u ∧
      (∃ v ∈ u.report.allVerdicts, l.grammar.HasVerdict source root true s v) ∧
      ∀ v ∈ u.report.allVerdicts, l.grammar.HasVerdict source root true s v →
        (v.isEmpty = true ↔ ∀ n ∈ l.grammar.flattenAll b.children, ¬l.grammar.IsStray source n) ∧
        (l.id = "java" ∨ l.id = "scala" → v.isEmpty = true) := by
  obtain ⟨d, hd, _⟩ := exists_declaration_of_block source hs hrule hcallable hb hblock
  obtain ⟨u, hu, hverdict⟩ := exists_verdict_of_declarationAt hunit hd options
  rw [hnoOps] at hverdict
  refine ⟨u, hu, hverdict, fun v _ hv => ?_⟩
  have hempty := evaluate_of_isFiller (soleAreIdle_builtin l hl) hfiller
  rw [← isEmpty_of_hasVerdict hs hrule hcallable hb hblock hv] at hempty
  refine ⟨hempty, fun hid => hempty.mpr ?_⟩
  rintro n _ ⟨hkind, hidle⟩
  rcases semicolon_listed l hl hid with hlisted | hlisted
  · exact hidle (Or.inl (hkind ▸ hlisted))
  · exact hidle (Or.inr (Or.inr (Or.inr (Or.inr (hkind ▸ hlisted)))))

/-- A method with semicolons and a comment in its block. -/
def idleSource : Source := Utf8.encode "class A \x7b void f() \x7b ; /* c */ ; \x7d \x7d"

/-- Its tree. -/
def idleMethodTree : Node :=
  .named none "program" 0 36 [.named none "class_declaration" 0 36
    [.token "class" 0 5, .named "name" "identifier" 6 7 [],
      .named "body" "class_body" 8 36
        [.token "\x7b" 8 9,
          .named none "method_declaration" 10 34
            [.named "type" "void_type" 10 14 [], .named "name" "identifier" 15 16 [],
              .named "parameters" "formal_parameters" 16 18 [.token "(" 16 17, .token ")" 17 18],
              .named "body" "block" 19 34
                [.token "\x7b" 19 20, .token ";" 21 22, .named none "block_comment" 23 30 [],
                  .token ";" 31 32, .token "\x7d" 33 34]],
          .token "\x7d" 35 36]]]

theorem idleMethod_is_empty :
    ∃ unit u, java.canonicalize "java" .skip "A.java" idleSource idleMethodTree = .ok unit ∧
      classifyUnit {} unit = .ok u ∧
      ∃ s ∈ idleMethodTree.sites, s.node.kind = "method_declaration" ∧
        ∃ v ∈ u.report.allVerdicts, java.HasVerdict idleSource idleMethodTree true s v ∧
          v.isEmpty = true := by
  have hmem : ⟨"java", ["java"], java⟩ ∈ builtinLanguages := by simp [builtinLanguages]
  obtain ⟨unit, hunit⟩ := exists_canonicalize_skip java "java" "A.java" idleSource idleMethodTree
  obtain ⟨s, hs, hkind, rule, hrule, hcallable, b, hb, hblock, hfiller⟩ :
      ∃ s ∈ idleMethodTree.sites, s.node.kind = "method_declaration" ∧
        ∃ rule, java.rule? s = some rule ∧ rule.kind.isCallable = true ∧
        ∃ b, java.bodyNode s.node = some b ∧ b.kind ∈ java.blockKinds ∧
          ∀ n ∈ java.flattenAll b.children, java.IsFiller idleSource n := by
    decide
  have hnoOps : ({} : Options).noOpsAreEmpty = true := rfl
  obtain ⟨u, hu, ⟨v, hv, hverdict⟩, hempty⟩ :=
    stub_is_empty_iff hmem hunit hnoOps hs hrule hcallable hb hblock hfiller
  exact ⟨unit, u, hunit, hu, s, hs, hkind, v, hv, hverdict,
    (hempty v hv hverdict).2 (Or.inl rfl)⟩

/-- A function with two fillers on one line. -/
def passesSource : Source := Utf8.encode "def f(): pass; pass\n"

/-- Its tree. -/
def passesTree : Node :=
  .named none "module" 0 20 [.named none "function_definition" 0 19
    [.token "def" 0 3, .named "name" "identifier" 4 5 [],
      .named "parameters" "parameters" 5 7 [.token "(" 5 6, .token ")" 6 7], .token ":" 7 8,
      .named "body" "block" 9 19
        [.named none "pass_statement" 9 13 [.token "pass" 9 13], .token ";" 13 14,
          .named none "pass_statement" 15 19 [.token "pass" 15 19]]]]

/-- The semicolon between two fillers is content. -/
theorem semicolon_is_content :
    ∃ unit u, python.canonicalize "python" .skip "main.py" passesSource passesTree = .ok unit ∧
      classifyUnit {} unit = .ok u ∧
      ∃ s ∈ passesTree.sites, ∃ rule, python.rule? s = some rule ∧ rule.kind.isCallable = true ∧
        ∃ b, python.bodyNode s.node = some b ∧ b.kind ∈ python.blockKinds ∧
        (∀ n ∈ python.flattenAll b.children, python.IsFiller passesSource n) ∧
        ∃ v ∈ u.report.verdicts, python.HasVerdict passesSource passesTree true s v ∧
          v.isEmpty = false ∧ v.reason = .hasContent := by
  have hcandidates : python.candidates passesTree = _ := candidates_of_pairwise (by decide)
  simp only [canonicalize, HasVerdict, declarationAt, placements, hcandidates]
  exact ⟨_, _, rfl, rfl, _, List.mem_cons_of_mem _ List.mem_cons_self, _, rfl, rfl, _, rfl,
    by decide, by decide, _, List.mem_cons_self, ⟨_, rfl, rfl⟩, rfl, rfl⟩

end Hollow.Grammar
