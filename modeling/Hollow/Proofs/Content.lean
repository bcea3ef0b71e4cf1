import Hollow.Proofs.Enclosure
import Hollow.Proofs.Utf8Texts

/-!
# Code is content

A statement counts by its kind, unless its text is blank.  The text of a byte range that is not
well-formed is empty, and an empty text is blank.  So a body with code in it is never reported as
empty as long as the code is well-formed text; code that is not is taken for whitespace.

* `Grammar.flattenAll` — the children of a block, with containers dissolved; its statements are
  those of these nodes (`statementsOfAll_eq`).
* `Grammar.IsCode` — a node that shows a visible character and is of a kind that counts.
* `statement?_of_isCode` — it counts exactly if its bytes are well-formed.
* `hasContent_of_mem_ancestors` — content shows through to everything around.
* `code_is_content`, `latinByte_hides_code` — the result, and that it needs well-formed text.
-/

namespace Hollow

/-! ## Visible bytes -/

/-- A byte that is a character of ASCII with a mark of its own. -/
def IsVisible (b : UInt8) : Prop := 0x21 ≤ b.toNat ∧ b.toNat ≤ 0x7E

instance : DecidablePred IsVisible := fun b =>
  inferInstanceAs (Decidable (0x21 ≤ b.toNat ∧ b.toNat ≤ 0x7E))

theorem isBlank_of_isVisible {b : UInt8} (hb : IsVisible b) :
    isBlank (Char.ofNat b.toNat) = false := by
  have hall : ∀ n ≤ 0x7E, 0x21 ≤ n → isBlank (Char.ofNat n) = false := by decide
  exact hall b.toNat hb.2 hb.1

/-- The bytes of a node. -/
def Node.bytes (source : Source) (n : Node) : List UInt8 :=
  (source.drop n.startByte).take (n.endByte - n.startByte)

/-- With a visible byte, a text is blank exactly if it is not well-formed. -/
theorem Node.isBlankText_text {source : Source} {n : Node}
    (hvisible : ∃ b ∈ n.bytes source, IsVisible b) :
    isBlankText (n.text source) = (Utf8.decode (n.bytes source)).isNone := by
  obtain ⟨b, hb, hvisible⟩ := hvisible
  have htext : n.text source = (Utf8.decode (n.bytes source)).getD "" := rfl
  rw [htext]
  cases hdecode : Utf8.decode (n.bytes source) with
  | none => rfl
  | some text =>
    rw [Utf8.decode_eq_some_iff.mp hdecode] at hb
    have hmem := Utf8.mem_of_mem_encode hb (Nat.lt_of_le_of_lt hvisible.2 (by decide))
    have hnot : ¬isBlankText text = true := by
      intro hall
      rw [isBlankText, List.all_eq_true] at hall
      have := hall _ hmem
      rw [isBlank_of_isVisible hvisible] at this
      cases this
    simpa using hnot

namespace Grammar

/-! ## Statements of a block -/

section

variable (g : Grammar)

mutual

/-- A child of a block; a container is replaced by what it holds. -/
def flatten : Node → List Node
  | ⟨kind, field, startByte, endByte, isNamed, isMissing, hasError, children⟩ =>
    if g.containers.contains kind then flattenAll children
    else [⟨kind, field, startByte, endByte, isNamed, isMissing, hasError, children⟩]

/-- The children of a block, with containers dissolved at every depth. -/
def flattenAll : List Node → List Node
  | [] => []
  | n :: ns => flatten n ++ flattenAll ns

end

variable {g} (source : Source)

mutual

theorem statementsOf_eq : ∀ n : Node,
    g.statementsOf source n = (g.flatten n).filterMap (g.statement? source)
  | ⟨kind, field, startByte, endByte, isNamed, isMissing, hasError, children⟩ => by
    rw [statementsOf, flatten]
    split_ifs
    · exact statementsOfAll_eq children
    · rw [List.filterMap_cons, List.filterMap_nil]
      split <;> simp_all

/-- The statements of a block are those of its children, with containers dissolved. -/
theorem statementsOfAll_eq : ∀ ns : List Node,
    g.statementsOfAll source ns = (g.flattenAll ns).filterMap (g.statement? source)
  | [] => by rw [statementsOfAll, flattenAll, List.filterMap_nil]
  | n :: ns => by
    rw [statementsOfAll, flattenAll, List.filterMap_append, statementsOf_eq n,
      statementsOfAll_eq ns]

end

end

/-! ## Code -/

/-- The kinds of node that count as code by themselves. -/
def codeKinds (g : Grammar) : List String :=
  g.controlFlowKinds ++ g.localDeclarationKinds ++ g.expressionKinds

/-- A node that is code: it is there, shows a visible byte, and is of a kind that counts, or else an
expression statement that holds something out of the ordinary. -/
def IsCode (g : Grammar) (source : Source) (n : Node) : Prop :=
  n.isMissing = false ∧ (∃ b ∈ n.bytes source, IsVisible b) ∧
    (n.kind ∈ g.codeKinds ∨
      n.kind = expressionStatement ∧ n.namedChildren ≠ [] ∧ g.soleCategory n = none)

instance (g : Grammar) (source : Source) : DecidablePred (g.IsCode source) := fun _ =>
  inferInstanceAs (Decidable (_ ∧ _ ∧ (_ ∨ _ ∧ _ ∧ _)))

/-- The table tells code from punctuation, comments and filler. -/
def TellsCode (g : Grammar) : Prop :=
  expressionStatement ∉ g.codeKinds ∧
    ∀ kind ∈ expressionStatement :: g.codeKinds,
      kind ∉ g.delimiters ∧ kind ∉ g.commentKinds ∧ kind ∉ g.noOpKinds

instance : DecidablePred TellsCode := fun g =>
  inferInstanceAs (Decidable (expressionStatement ∉ g.codeKinds ∧ _))

theorem tellsCode_builtin : ∀ l ∈ builtinLanguages, l.grammar.TellsCode := by decide

variable {g : Grammar} {source : Source}

section

variable {n : Node}

theorem soleCategory_of_isCode (hg : g.TellsCode) (hn : g.IsCode source n) :
    g.soleCategory n = none := by
  rcases hn.2.2 with hkind | ⟨_, _, hsole⟩
  · have hne : n.kind ≠ expressionStatement := fun h => hg.1 (h ▸ hkind)
    simp [soleCategory, hne]
  · exact hsole

theorem exists_namedChildren_of_isCode (hg : g.TellsCode) (hn : g.IsCode source n)
    (hkind : n.kind = expressionStatement) : ∃ inner rest, n.namedChildren = inner :: rest := by
  rcases hn.2.2 with hcode | ⟨_, hne, _⟩
  · exact absurd (hkind ▸ hcode) hg.1
  · exact List.exists_cons_of_ne_nil hne

/-- **Code counts exactly if it is well-formed text**; otherwise it is taken for whitespace. -/
theorem statement?_of_isCode (hg : g.TellsCode) (hn : g.IsCode source n) (noOps : Bool) :
    ∃ st, g.statement? source n = some st ∧
      st.category.isSignificant noOps = (Utf8.decode (n.bytes source)).isSome := by
  have hsole := soleCategory_of_isCode hg hn
  have hholds := exists_namedChildren_of_isCode hg hn
  obtain ⟨hpresent, hvisible, hkind⟩ := hn
  have hkinds : n.kind ∈ expressionStatement :: g.codeKinds := by
    rcases hkind with hkind | ⟨hkind, _⟩
    · exact List.mem_cons_of_mem _ hkind
    · exact hkind ▸ List.mem_cons_self
  obtain ⟨hdelimiter, hcomment, hnoOp⟩ := hg.2 _ hkinds
  simp only [statement?, hsole, Option.none_or, categoryOf, List.contains_iff_mem, hdelimiter,
    hcomment, hnoOp, hpresent, Bool.false_or, Node.isBlankText_text hvisible, if_false]
  cases Utf8.decode (n.bytes source) with
  | none => exact ⟨_, rfl, by cases noOps <;> rfl⟩
  | some text =>
    -- What is left are the kinds that count; of expression statements only those with no child
    -- are filler.
    simp only [Option.isNone_some, Bool.false_eq_true, if_false, Option.isSome_some]
    split_ifs with hcontrol hlocal hstatement
    · exact ⟨_, rfl, by cases noOps <;> rfl⟩
    · exact ⟨_, rfl, by cases noOps <;> rfl⟩
    · obtain ⟨inner, rest, hinner⟩ := hholds (beq_iff_eq.mp hstatement)
      rw [hinner]
      simp only
      split_ifs
      · exact ⟨_, rfl, by cases noOps <;> rfl⟩
      · exact ⟨_, rfl, by cases noOps <;> rfl⟩
    · exact ⟨_, rfl, by cases noOps <;> rfl⟩
    · exact ⟨_, rfl, by cases noOps <;> rfl⟩

/-- A block with code in it has content, if the code is well-formed text. -/
theorem evaluate_of_isCode (hg : g.TellsCode) {children : List Node}
    (hmem : n ∈ g.flattenAll children) (hn : g.IsCode source n)
    (htext : (Utf8.decode (n.bytes source)).isSome = true) (noOps : Bool) :
    (evaluate noOps (g.statementsOfAll source children)).reason = .hasContent := by
  obtain ⟨st, hst, hcounts⟩ := statement?_of_isCode hg hn noOps
  have hmem : st ∈ g.statementsOfAll source children := by
    rw [statementsOfAll_eq]
    exact List.mem_filterMap.mpr ⟨n, hmem, hst⟩
  have hany : (g.statementsOfAll source children).any (·.category.isSignificant noOps) = true :=
    List.any_eq_true.mpr ⟨st, hmem, hcounts.trans htext⟩
  have hne : (g.statementsOfAll source children).isEmpty = false := by
    rw [List.isEmpty_eq_false_iff]
    exact List.ne_nil_of_mem hmem
  rw [evaluate, hne, hany]
  rfl

end

end Grammar

/-! ## Content shows through -/

variable {noOps : Bool}

/-- A verdict around a place of a walk is one that the walk began below, or else one of the walk
that the place is nested in. -/
theorem Verdict.mem_walk_of_mem_ancestors {above : List Verdict} {v : Verdict} {s : Spot}
    (hs : s ∈ spots above v) :
    s.verdict ∈ v.walk ∧ ∀ a ∈ s.ancestors, a ∈ above ∨ a ∈ v.walk ∧ s.verdict ∈ a.walk := by
  have hself : s.verdict ∈ v.walk := map_verdict_spots above v ▸ List.mem_map_of_mem hs
  refine ⟨hself, ?_⟩
  induction v using Verdict.induction generalizing above with
  | step v ih =>
    intro a ha
    rcases mem_spots_iff.mp hs with rfl | ⟨c, hc, hs⟩
    · exact Or.inl ha
    · have hsc : s.verdict ∈ c.walk := map_verdict_spots _ c ▸ List.mem_map_of_mem hs
      have hwalk : ∀ w ∈ c.walk, w ∈ v.walk := fun w hw => by
        rw [v.walk_eq]
        exact List.mem_cons_of_mem _ (List.mem_flatMap.mpr ⟨c, hc, hw⟩)
      rcases ih c hc hs hsc a ha with ha | ⟨ha, hsa⟩
      · rcases List.mem_cons.mp ha with rfl | ha
        · exact Or.inr ⟨by rw [a.walk_eq]; exact List.mem_cons_self, hself⟩
        · exact Or.inl ha
      · exact Or.inr ⟨hwalk a ha, hsa⟩

/-- A verdict has content when one nested in it has. -/
theorem reason_of_mem_walk {d : Declaration} {v w : Verdict} (h : classify noOps d = .ok v)
    (hw : w ∈ v.walk) (hcontent : w.reason = .hasContent) : v.reason = .hasContent := by
  obtain ⟨c, hc, hcw⟩ := exists_rel_of_mem_right (classify_walk h) hw
  obtain ⟨e, he, hhas⟩ := (reason_eq_hasContent_iff hcw).mp hcontent
  exact (reason_eq_hasContent_iff h).mpr ⟨e, Declaration.mem_walk_trans hc he, hhas⟩

section

variable {unit : SourceUnit}

/-- **Content shows through** to all verdicts around it. -/
theorem hasContent_of_mem_ancestors {s : Spot}
    (hs : s ∈ (unitReport noOps unit).report.spots) (hcontent : s.verdict.reason = .hasContent) :
    ∀ a ∈ s.ancestors,
      a ∈ (unitReport noOps unit).report.allVerdicts ∧ a.reason = .hasContent := by
  intro a ha
  obtain ⟨v, hv, hs⟩ := Report.mem_spots_iff.mp hs
  rcases (Verdict.mem_walk_of_mem_ancestors hs).2 a ha with hnil | ⟨hav, hsa⟩
  · cases hnil
  · have hall : a ∈ (unitReport noOps unit).report.allVerdicts :=
      Report.mem_allVerdicts_iff.mpr ⟨v, hv, hav⟩
    obtain ⟨d, _, hd⟩ := exists_classify_of_mem_allVerdicts hall
    exact ⟨hall, reason_of_mem_walk hd hsa hcontent⟩

theorem isEmpty_of_hasContent {v : Verdict}
    (hv : v ∈ (unitReport noOps unit).report.allVerdicts) (hcontent : v.reason = .hasContent) :
    v.isEmpty = false := by
  obtain ⟨d, _, hd⟩ := exists_classify_of_mem_allVerdicts hv
  have hnot : ¬v.isEmpty = true := fun he => ((classify_consistent hd).mp he).1 hcontent
  simpa using hnot

/-- Every declaration of a unit without malformed ones has its verdict in the report. -/
theorem exists_spot_of_mem_walkAll
    (hwf : ∀ d ∈ Declaration.walkAll unit.declarations, d.WellFormed) {d : Declaration}
    (hd : d ∈ Declaration.walkAll unit.declarations) :
    ∃ s ∈ (unitReport noOps unit).report.spots, classify noOps d = .ok s.verdict := by
  obtain ⟨top, htop, hd⟩ := Declaration.mem_walkAll_iff.mp hd
  obtain ⟨v, hv⟩ := @exists_classify_of_wellFormed noOps _ hwf top htop
  obtain ⟨w, hw, hdw⟩ := exists_rel_of_mem_left (classify_walk hv) hd
  have hall : w ∈ (unitReport noOps unit).report.allVerdicts :=
    Report.mem_allVerdicts_iff.mpr ⟨v, mem_verdicts_iff.mpr ⟨top, htop, hv⟩, hw⟩
  rw [← Report.map_verdict_spots, List.mem_map] at hall
  obtain ⟨s, hs, rfl⟩ := hall
  exact ⟨s, hs, hdw⟩

end

namespace Grammar

/-! ## Reports on code -/

section

variable {g : Grammar} {source : Source} {root : Node} {s : Site} {rule : Rule} {b n : Node}

/-- A callable with a block has a declaration with the statements of that block. -/
theorem exists_declaration_of_block (source : Source) (hs : s ∈ root.sites)
    (hrule : g.rule? s = some rule) (hcallable : rule.kind.isCallable = true)
    (hb : g.bodyNode s.node = some b) (hblock : b.kind ∈ g.blockKinds) :
    ∃ d, g.declarationAt source root s = some d ∧ d.kind.isCallable = true ∧
      d.body = some ⟨some (b.span source), g.statementsOfAll source b.children⟩ := by
  obtain ⟨placed, new, hplacements⟩ := exists_place_of_rule? source hs hrule
  have hd := declarationAt_of_place hplacements
  refine ⟨_, hd, ?_⟩
  have hclass : (g.declarationAt source root s).any (·.kind == .classLike) = false := by
    rw [any_declarationAt_eq_isClass hs, isClass, hrule]
    cases hkind : rule.kind <;> simp_all [Kind.isCallable]
  rw [hd, Option.any_some, beq_eq_false_iff_ne] at hclass
  obtain ⟨_, hbody⟩ := span_body_of_declarationAt hs hd
  rw [if_neg hclass, body, hb, Option.map_some, if_pos (List.contains_iff_mem.mpr hblock)] at hbody
  exact ⟨Classical.byContradiction fun h => hclass (Kind.eq_classLike_of_not_isCallable h), hbody⟩

/-- The declaration of a callable with code in its block has content. -/
theorem exists_declaration_hasContent (hg : g.TellsCode) (hs : s ∈ root.sites)
    (hrule : g.rule? s = some rule) (hcallable : rule.kind.isCallable = true)
    (hb : g.bodyNode s.node = some b) (hblock : b.kind ∈ g.blockKinds)
    (hn : n ∈ g.flattenAll b.children) (hcode : g.IsCode source n)
    (htext : (Utf8.decode (n.bytes source)).isSome = true) (noOps : Bool) :
    ∃ d, g.declarationAt source root s = some d ∧ d.HasContent noOps := by
  obtain ⟨d, hd, hkind, hbody⟩ := exists_declaration_of_block source hs hrule hcallable hb hblock
  exact ⟨d, hd, hkind, _, hbody, evaluate_of_isCode hg hn hcode htext noOps⟩

/-- Where a declaration with content is judged, its verdict and all around say so. -/
theorem hasContent_of_hasVerdict {noOps : Bool} {unit : SourceUnit} {d : Declaration} {spot : Spot}
    (hd : g.declarationAt source root s = some d) (hcontent : d.HasContent noOps)
    (hspot : spot ∈ (unitReport noOps unit).report.spots)
    (hverdict : g.HasVerdict source root noOps s spot.verdict) :
    ∀ v ∈ spot.verdict :: spot.ancestors,
      v ∈ (unitReport noOps unit).report.allVerdicts ∧
        v.isEmpty = false ∧ v.reason = .hasContent := by
  obtain ⟨e, he, hverdict⟩ := hverdict
  obtain rfl := Option.some.inj (hd.symm.trans he)
  have hself := (reason_eq_hasContent_iff hverdict).mpr ⟨d, d.self_mem_walk, hcontent⟩
  have hmem := Report.verdict_mem_allVerdicts hspot
  refine List.forall_mem_cons.mpr ⟨⟨hmem, isEmpty_of_hasContent hmem hself, hself⟩, ?_⟩
  intro a ha
  obtain ⟨hall, hreason⟩ := hasContent_of_mem_ancestors hspot hself a ha
  exact ⟨hall, isEmpty_of_hasContent hall hreason, hreason⟩

end

/-- **Code is content.**  In every built-in language, for every source, tree, policy and options:
if a callable has a block with code in it, and this code is well-formed text, then the callable gets
a verdict, which says that it has content, and so do all verdicts around it.  Where children lie
inside their parents, these are the verdicts on all classes above the node of the callable. -/
theorem code_is_content {l : Language} (hl : l ∈ builtinLanguages) {policy : UnsupportedPolicy}
    {path : String} {source : Source} {root : Node} {unit : SourceUnit}
    (hunit : l.grammar.canonicalize l.id policy path source root = .ok unit) (options : Options)
    {s : Site} {rule : Rule} {b n : Node} (hs : s ∈ root.sites)
    (hrule : l.grammar.rule? s = some rule) (hcallable : rule.kind.isCallable = true)
    (hb : l.grammar.bodyNode s.node = some b) (hblock : b.kind ∈ l.grammar.blockKinds)
    (hn : n ∈ l.grammar.flattenAll b.children) (hcode : l.grammar.IsCode source n)
    (htext : (Utf8.decode (n.bytes source)).isSome = true) :
    ∃ u, classifyUnit options unit = .ok u ∧
      (∃ spot ∈ u.report.spots,
        l.grammar.HasVerdict source root options.noOpsAreEmpty s spot.verdict) ∧
      (∀ spot ∈ u.report.spots,
        l.grammar.HasVerdict source root options.noOpsAreEmpty s spot.verdict →
        ∀ v ∈ spot.verdict :: spot.ancestors, v.isEmpty = false ∧ v.reason = .hasContent) ∧
      (root.Everywhere Node.HoldsChildren → ∀ t ∈ l.grammar.classesAbove s,
        ∃ v ∈ u.report.allVerdicts,
          l.grammar.HasVerdict source root options.noOpsAreEmpty t v ∧
          v.isEmpty = false ∧ v.reason = .hasContent) := by
  obtain ⟨d, hd, hcontent⟩ := exists_declaration_hasContent (tellsCode_builtin l hl) hs hrule
    hcallable hb hblock hn hcode htext options.noOpsAreEmpty
  have hwf := wellFormed_of_canonicalize hunit
  have hmem := mem_walkAll_of_declarationAt hunit hd
  have hjudged : ¬Refused options unit := by
    rintro ⟨_, hnil⟩
    rw [hnil] at hmem
    cases hmem
  refine ⟨_, classifyUnit_of_not_refused hjudged, ?_, ?_, fun hroot t ht => ?_⟩
  · obtain ⟨spot, hspot, hverdict⟩ := exists_spot_of_mem_walkAll hwf hmem
    exact ⟨spot, hspot, d, hd, hverdict⟩
  · intro spot hspot hverdict v hv
    exact (hasContent_of_hasVerdict hd hcontent hspot hverdict v hv).2
  · have hnesting := nestingRule_of_canonicalize hroot hunit
    obtain ⟨spot, hspot, _, hverdicts⟩ := exists_spot_of_declarationAt hnesting hwf hs hd
    obtain ⟨hself, haround⟩ := List.forall₂_cons.mp hverdicts
    obtain ⟨v, hv, htv⟩ := exists_rel_of_mem_left haround ht
    obtain ⟨hall, hempty, hreason⟩ :=
      hasContent_of_hasVerdict hd hcontent hspot hself v (List.mem_cons_of_mem _ hv)
    exact ⟨v, hall, htv, hempty, hreason⟩

/-- A function of one statement, which assigns a string of a single byte. -/
def assignSource (byte : UInt8) : Source :=
  Utf8.encode "def f():\n    x = '" ++ [byte] ++ Utf8.encode "'\n"

/-- Its tree, whatever the byte. -/
def assignTree : Node :=
  .named none "module" 0 21 [.named none "function_definition" 0 20
    [.token "def" 0 3, .named "name" "identifier" 4 5 [],
      .named "parameters" "parameters" 5 7 [.token "(" 5 6, .token ")" 6 7], .token ":" 7 8,
      .named "body" "block" 13 20 [.named none "expression_statement" 13 20
        [.named none "assignment" 13 20
          [.named "left" "identifier" 13 14 [], .token "=" 15 16,
            .named "right" "string" 17 20
              [.named none "string_start" 17 18 [], .named none "string_content" 18 19 [],
                .named none "string_end" 19 20 []]]]]]]

theorem assignTree_is_content :
    ∃ unit u, python.canonicalize "python" .skip "x.py" (assignSource 0x79) assignTree = .ok unit ∧
      classifyUnit {} unit = .ok u ∧
      ∃ s ∈ assignTree.sites, ∃ spot ∈ u.report.spots,
        python.HasVerdict (assignSource 0x79) assignTree true s spot.verdict ∧
        spot.verdict.isEmpty = false ∧ spot.verdict.reason = .hasContent := by
  have hmem : ⟨"python", ["py", "pyi"], python⟩ ∈ builtinLanguages := by simp [builtinLanguages]
  obtain ⟨unit, hunit⟩ :=
    exists_canonicalize_skip python "python" "x.py" (assignSource 0x79) assignTree
  obtain ⟨s, hs, rule, hrule, hcallable, b, hb, hblock, n, hn, hcode, htext⟩ :
      ∃ s ∈ assignTree.sites, ∃ rule, python.rule? s = some rule ∧ rule.kind.isCallable = true ∧
        ∃ b, python.bodyNode s.node = some b ∧ b.kind ∈ python.blockKinds ∧
        ∃ n ∈ python.flattenAll b.children, python.IsCode (assignSource 0x79) n ∧
          (Utf8.decode (n.bytes (assignSource 0x79))).isSome = true := by decide
  obtain ⟨u, hu, ⟨spot, hspot, hverdict⟩, hcontent, _⟩ :=
    code_is_content hmem hunit {} hs hrule hcallable hb hblock hn hcode htext
  exact ⟨unit, u, hunit, hu, s, hs, spot, hspot, hverdict,
    hcontent spot hspot hverdict spot.verdict List.mem_cons_self⟩

/-- A byte that is not part of a well-formed text hides the statement: the function counts as
empty. -/
theorem latinByte_hides_code :
    ∃ unit u, python.canonicalize "python" .skip "x.py" (assignSource 0xFF) assignTree = .ok unit ∧
      classifyUnit {} unit = .ok u ∧
      ∃ s ∈ assignTree.sites, ∃ rule, python.rule? s = some rule ∧ rule.kind.isCallable = true ∧
        ∃ b, python.bodyNode s.node = some b ∧ b.kind ∈ python.blockKinds ∧
        ∃ n ∈ python.flattenAll b.children, python.IsCode (assignSource 0xFF) n ∧
        ∃ v ∈ u.report.verdicts, python.HasVerdict (assignSource 0xFF) assignTree true s v ∧
          v.isEmpty = true ∧ v.reason = .onlyCommentsOrWhitespace := by
  have hcandidates : python.candidates assignTree = _ := candidates_of_pairwise (by decide)
  simp only [canonicalize, HasVerdict, declarationAt, placements, hcandidates]
  exact ⟨_, _, rfl, rfl, _, List.mem_cons_of_mem _ List.mem_cons_self, _, rfl, rfl, _, rfl,
    by decide, _, List.mem_cons_self, by decide, _, List.mem_cons_self, ⟨_, rfl, rfl⟩, rfl, rfl⟩

end Grammar

end Hollow
