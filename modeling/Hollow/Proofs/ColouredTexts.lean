import Hollow.Proofs.PrintedVerdicts

/-!
# Colour and text

Lines are painted piece by piece, with an escape sequence in front of a piece that has a style and
one behind it.  Deleting the escape sequences from a text in colour gives the text without colour,
as long as what is printed has no escape characters of its own: then no piece can be taken for a
part of a sequence, whatever digits, brackets and letters it is made of.

* `withoutSequences`, `uncoloured` — deleting escape sequences.
* `withoutSequences_append`, `withoutSequences_start`, `withoutSequences_reset` — text stays, and
  the sequences around it go.
* `Piece.withoutSequences_paint`, `Line.withoutSequences_paint`, `uncoloured_paintLines` — the same
  of pieces, lines and texts.
* `UnitReport.texts` — the texts that the report on a unit holds.
* `reportLines_escapeFree` — a report prints no escape characters but those it is given.
* `colour_leaves_text` — reports with and without colour.
-/

namespace Hollow

/-! ## Deleting escape sequences -/

/-- Codes are made of digits and semicolons. -/
def isCodeChar (c : Char) : Bool := c.isDigit || c == ';'

/-- What follows the escape sequence that a text begins with. -/
def afterSequence? : List Char → Option (List Char)
  | '\x1b' :: '[' :: cs =>
    match cs.dropWhile isCodeChar with
    | 'm' :: rest => some rest
    | _ => none
  | _ => none

theorem length_of_afterSequence? {text rest : List Char} (h : afterSequence? text = some rest) :
    rest.length < text.length := by
  unfold afterSequence? at h
  split at h
  · rename_i cs
    split at h
    · rename_i rest' hdrop
      obtain rfl := Option.some.inj h
      have hle := (List.dropWhile_suffix isCodeChar (l := cs)).length_le
      rw [hdrop] at hle
      simp only [List.length_cons] at hle ⊢
      omega
    · cases h
  · cases h

/-- A text without its escape sequences.  Any other escape character stays. -/
def withoutSequences : List Char → List Char
  | [] => []
  | c :: cs =>
    match h : afterSequence? (c :: cs) with
    | some rest =>
      have := length_of_afterSequence? h
      withoutSequences rest
    | none => c :: withoutSequences cs
termination_by text => text.length
decreasing_by
  · exact this
  · exact Nat.lt_succ_self _

/-- A text without its escape sequences, as a whole. -/
def uncoloured (text : String) : String := String.ofList (withoutSequences text.toList)

theorem withoutSequences_cons_of_ne {c : Char} (hc : c ≠ '\x1b') (cs : List Char) :
    withoutSequences (c :: cs) = c :: withoutSequences cs := by
  have hnone : afterSequence? (c :: cs) = none := by simp [afterSequence?, hc]
  rw [withoutSequences]
  split
  · rename_i rest h
    cases hnone.symm.trans h
  · rfl

theorem withoutSequences_of_afterSequence? {c : Char} {cs rest : List Char}
    (hafter : afterSequence? (c :: cs) = some rest) :
    withoutSequences (c :: cs) = withoutSequences rest := by
  rw [withoutSequences]
  split
  · rename_i rest' h
    rw [Option.some.inj (hafter.symm.trans h)]
  · rename_i h
    cases hafter.symm.trans h

/-- Text without escape characters stays. -/
theorem withoutSequences_append {text : List Char} (h : '\x1b' ∉ text) (rest : List Char) :
    withoutSequences (text ++ rest) = text ++ withoutSequences rest := by
  induction text with
  | nil => rfl
  | cons c text ih =>
    rw [List.mem_cons, not_or] at h
    rw [List.cons_append, withoutSequences_cons_of_ne (Ne.symm h.1), ih h.2, List.cons_append]

/-- An escape sequence is deleted. -/
theorem withoutSequences_sequence {codes : List Char} (h : ∀ c ∈ codes, isCodeChar c = true)
    (rest : List Char) :
    withoutSequences ('\x1b' :: '[' :: (codes ++ 'm' :: rest)) = withoutSequences rest := by
  have hdrop : (codes ++ 'm' :: rest).dropWhile isCodeChar = 'm' :: rest := by
    rw [List.dropWhile_append_of_pos h, List.dropWhile_cons_of_neg (by decide)]
  apply withoutSequences_of_afterSequence?
  simp only [afterSequence?, hdrop]

/-- What only begins like an escape sequence stays. -/
example : uncoloured "\x1b[1;36mab\x1b[0m\x1b[2c" = "ab\x1b[2c" := by cbv

namespace Style

/-- Numbers with semicolons between them are codes. -/
theorem isCodeChar_of_mem_intercalate {codes : List Nat} :
    ∀ c ∈ (";".intercalate (codes.map toString)).toList, isCodeChar c = true := by
  have hnumber : ∀ n : Nat, ∀ c ∈ (toString n).toList, isCodeChar c = true := by
    intro n c hc
    rw [Nat.toString_eq_repr, Nat.toList_repr] at hc
    rw [isCodeChar, Nat.isDigit_of_mem_toDigits (by decide) (by decide) hc, Bool.true_or]
  rw [String.toList_intercalate, List.map_map]
  induction codes with
  | nil => simp
  | cons n codes ih =>
    cases codes with
    | nil => simpa using hnumber n
    | cons m codes =>
      rw [List.map_cons, List.map_cons, List.intercalate_cons_cons, List.forall_mem_append,
        List.forall_mem_append]
      exact ⟨⟨hnumber n, by simp [isCodeChar]⟩, ih⟩

theorem withoutSequences_start (s : Style) (rest : List Char) :
    withoutSequences (s.start ++ rest) = withoutSequences rest := by
  rw [start, List.cons_append, List.cons_append, List.append_assoc]
  exact withoutSequences_sequence isCodeChar_of_mem_intercalate rest

theorem withoutSequences_reset (rest : List Char) :
    withoutSequences (reset ++ rest) = withoutSequences rest := by
  have hcode : ∀ c ∈ ['0'], isCodeChar c = true := by simp [isCodeChar]
  exact withoutSequences_sequence hcode rest

/-- Without resets in a text there is nothing to put on again. -/
theorem resume_of_not_mem (s : Style) {text : List Char} (h : '\x1b' ∉ text) :
    s.resume text = text := by
  induction text with
  | nil => rfl
  | cons c text ih =>
    rw [List.mem_cons, not_or] at h
    rw [resume, ih h.2]
    rintro cs rfl
    exact absurd rfl h.1

end Style

/-! ## Painting -/

/-- A text without escape characters. -/
abbrev EscapeFree (text : String) : Prop := '\x1b' ∉ text.toList

/-- A line without escape characters. -/
def Line.EscapeFree (l : Line) : Prop := ∀ p ∈ l, Hollow.EscapeFree p.text

theorem Line.escapeFree_nil : Line.EscapeFree [] := fun _ hp => absurd hp List.not_mem_nil

theorem Piece.paint_false (p : Piece) : p.paint false = p.text.toList := rfl

/-- **The sequences around a piece go**, and its text stays. -/
theorem Piece.withoutSequences_paint {p : Piece} (h : EscapeFree p.text) (rest : List Char) :
    withoutSequences (p.paint true ++ rest) = p.paint false ++ withoutSequences rest := by
  rw [p.paint_false, paint]
  split
  · -- The sequence in front goes, the text has nothing to resume and stays, the reset goes.
    rw [p.style.resume_of_not_mem h, List.append_assoc, List.append_assoc,
      Style.withoutSequences_start, withoutSequences_append h, Style.withoutSequences_reset]
  · exact withoutSequences_append h rest

theorem Line.withoutSequences_paint {l : Line} (h : l.EscapeFree) (rest : List Char) :
    withoutSequences (l.paint true ++ rest) = l.paint false ++ withoutSequences rest := by
  unfold Line.paint
  induction l with
  | nil =>
    have hnewline : '\x1b' ∉ ['\n'] := by decide
    exact withoutSequences_append hnewline rest
  | cons p l ih =>
    obtain ⟨hp, hl⟩ := List.forall_mem_cons.mp h
    rw [List.flatMap_cons, List.append_assoc, List.append_assoc, p.withoutSequences_paint hp,
      ← List.append_assoc, ih hl, List.flatMap_cons]
    simp only [List.append_assoc]

/-- **Lines in colour** are the same lines without colour once the sequences are deleted. -/
theorem uncoloured_paintLines {lines : List Line} (h : ∀ l ∈ lines, l.EscapeFree) :
    uncoloured (paintLines true lines) = paintLines false lines := by
  rw [uncoloured, paintLines, paintLines, String.toList_ofList]
  congr 1
  induction lines with
  | nil => rw [List.flatMap_nil, withoutSequences, List.flatMap_nil]
  | cons l lines ih =>
    obtain ⟨hl, hlines⟩ := List.forall_mem_cons.mp h
    rw [List.flatMap_cons, l.withoutSequences_paint hl, ih hlines, List.flatMap_cons]

/-! ## Texts in reports -/

/-- The texts that a reference to a declaration holds. -/
def DeclarationRef.texts (r : DeclarationRef) : List String := r.name.toList

/-- The texts that a fault holds. -/
def Fault.texts : Fault → List String
  | .unsupported nodeKind _ => [nodeKind]
  | .malformed _ detail => [detail]
  | .emptyInput => []

/-- The texts that an entry holds, at every depth. -/
def Entry.texts : Entry → List String
  | .classified v => v.walk.flatMap fun w => w.declaration.texts
  | .failed declaration fault => declaration.texts ++ fault.texts

/-- The texts that the report on a unit holds. -/
def UnitReport.texts (u : UnitReport) : List String :=
  [u.path, u.language] ++ u.report.entries.flatMap Entry.texts ++ u.diagnostics.flatMap Fault.texts

@[simp] theorem escape_not_mem_toDigits (n : Nat) : '\x1b' ∉ Nat.toDigits 10 n :=
  not_mem_toDigits rfl n

@[simp] theorem Span.escapeFree_text (s : Span) : EscapeFree s.text := by
  simp [EscapeFree, Span.text]

@[simp] theorem Kind.escapeFree_name (k : Kind) : EscapeFree k.name := by
  cases k <;> simp [EscapeFree, name]

@[simp] theorem Reason.escapeFree_description (r : Reason) : EscapeFree r.description := by
  cases r <;> simp [EscapeFree, description]

@[simp] theorem DeclarationRef.escapeFree_columns (r : DeclarationRef) : EscapeFree r.columns := by
  simp [EscapeFree, columns, padRight]

theorem DeclarationRef.escapeFree_displayName {r : DeclarationRef}
    (h : ∀ t ∈ r.texts, EscapeFree t) : EscapeFree r.displayName := by
  unfold displayName
  cases hname : r.name with
  | none => simp [EscapeFree, anonymousName]
  | some name => exact h name (by simp [texts, hname])

theorem Fault.escapeFree_message {f : Fault} (h : ∀ t ∈ f.texts, EscapeFree t) :
    EscapeFree f.message := by
  unfold message
  cases f with
  | unsupported nodeKind span =>
    have hkind : EscapeFree nodeKind := h nodeKind (by simp [texts])
    simp [EscapeFree, hkind]
  | malformed id detail =>
    have hdetail : EscapeFree detail := h detail (by simp [texts])
    simp [EscapeFree, hdetail]
  | emptyInput => simp [EscapeFree]

/-! ## Lines of reports -/

@[simp] theorem text_plain (text : String) : (plain text).text = text := rfl

@[simp] theorem text_dimmed (text : String) : (dimmed text).text = text := rfl

@[simp] theorem text_bold (text : String) : (bold text).text = text := rfl

@[simp] theorem text_coloured (colour : Colour) (text : String) :
    (coloured colour text).text = text := rfl

theorem Verdict.line_escapeFree (level : Nat) {v : Verdict}
    (h : ∀ t ∈ v.declaration.texts, EscapeFree t) : (v.line level).EscapeFree := by
  have hname := DeclarationRef.escapeFree_displayName h
  have hmark : EscapeFree v.mark.text := by
    unfold mark
    split_ifs <;> simp [EscapeFree]
  unfold line
  split_ifs <;> simp [EscapeFree, Line.EscapeFree, Reason.remark, hmark, hname]

theorem failureLine_escapeFree {declaration : DeclarationRef} {fault : Fault}
    (h : ∀ t ∈ declaration.texts ++ fault.texts, EscapeFree t) :
    (failureLine (declaration, fault)).EscapeFree := by
  obtain ⟨hdeclaration, hfault⟩ := List.forall_mem_append.mp h
  have hname := DeclarationRef.escapeFree_displayName hdeclaration
  have hmessage := Fault.escapeFree_message hfault
  simp [EscapeFree, Line.EscapeFree, failureLine, hname, hmessage]

theorem diagnosticLine_escapeFree {fault : Fault} (h : ∀ t ∈ fault.texts, EscapeFree t) :
    (diagnosticLine fault).EscapeFree := by
  have hmessage := Fault.escapeFree_message h
  simp [EscapeFree, Line.EscapeFree, diagnosticLine, hmessage]

namespace UnitReport

variable {u : UnitReport} {showAll : Bool}

theorem titleLine_escapeFree (hpath : EscapeFree u.path) (hlanguage : EscapeFree u.language) :
    u.titleLine.EscapeFree := by
  unfold titleLine
  split_ifs <;> simp [EscapeFree, Line.EscapeFree, hpath, hlanguage]

theorem verdictLines_escapeFree (h : ∀ e ∈ u.report.entries, ∀ t ∈ e.texts, EscapeFree t) :
    ∀ l ∈ u.verdictLines showAll, l.EscapeFree := by
  intro l hl
  -- A line belongs to a verdict somewhere in an entry, and its name is one of the entry's texts.
  rw [verdictLines_eq] at hl
  obtain ⟨s, hs, rfl⟩ := List.mem_map.mp hl
  have hv := Report.verdict_mem_allVerdicts (List.mem_filter.mp hs).1
  obtain ⟨top, htop, hv⟩ := Report.mem_allVerdicts_iff.mp hv
  obtain ⟨e, he, hverdict⟩ := List.mem_filterMap.mp htop
  cases e with
  | failed => cases hverdict
  | classified v =>
    obtain rfl := Option.some.inj hverdict
    exact Verdict.line_escapeFree _ fun t ht => h _ he t (List.mem_flatMap.mpr ⟨_, hv, ht⟩)

theorem failureLines_escapeFree (h : ∀ e ∈ u.report.entries, ∀ t ∈ e.texts, EscapeFree t) :
    ∀ failure ∈ u.report.failures, (failureLine failure).EscapeFree := by
  intro failure hfailure
  obtain ⟨e, he, hfailure⟩ := List.mem_filterMap.mp hfailure
  cases e with
  | classified => cases hfailure
  | failed declaration fault =>
    obtain rfl := Option.some.inj hfailure
    exact failureLine_escapeFree (h _ he)

/-- The block of a unit has no escape characters but those of the unit. -/
theorem lines_escapeFree (h : ∀ t ∈ u.texts, EscapeFree t) :
    ∀ l ∈ u.lines showAll, l.EscapeFree := by
  simp only [texts, List.forall_mem_append, List.forall_mem_cons, List.forall_mem_flatMap] at h
  obtain ⟨⟨⟨hpath, hlanguage, _⟩, hentries⟩, hdiagnostics⟩ := h
  unfold lines
  split_ifs
  · simp only [List.forall_mem_append, List.forall_mem_singleton, List.forall_mem_map]
    exact ⟨⟨⟨⟨titleLine_escapeFree hpath hlanguage, verdictLines_escapeFree hentries⟩,
      failureLines_escapeFree hentries⟩,
      fun fault hfault => diagnosticLine_escapeFree (hdiagnostics fault hfault)⟩,
      Line.escapeFree_nil⟩
  · simp [EscapeFree, Line.EscapeFree, hpath]
  · exact fun l hl => absurd hl List.not_mem_nil

end UnitReport

theorem headerLines_escapeFree {path : String} {config : Option String} (hpath : EscapeFree path)
    (hconfig : ∀ c ∈ config.toList, EscapeFree c) :
    ∀ l ∈ headerLines path config, l.EscapeFree := by
  unfold headerLines programName programVersion
  cases config with
  | none => simp [EscapeFree, Line.EscapeFree, hpath]
  | some c =>
    have hc : EscapeFree c := hconfig c List.mem_cons_self
    simp [EscapeFree, Line.EscapeFree, hpath, hc]

theorem summaryLines_escapeFree (files : Nat) (s : Summary) :
    ∀ l ∈ summaryLines files s, l.EscapeFree := by
  unfold summaryLines
  split_ifs <;> simp [EscapeFree, Line.EscapeFree]

/-- **A report has no escape characters** but those that it is given. -/
theorem reportLines_escapeFree {path : String} {config : Option String} {units : List UnitReport}
    (h : ∀ t ∈ path :: (config.toList ++ units.flatMap UnitReport.texts), EscapeFree t)
    (showAll : Bool) : ∀ l ∈ reportLines path config units showAll, l.EscapeFree := by
  simp only [List.forall_mem_cons, List.forall_mem_append, List.forall_mem_flatMap] at h
  obtain ⟨hpath, hconfig, hunits⟩ := h
  simp only [reportLines, List.forall_mem_append, List.forall_mem_flatMap,
    List.forall_mem_singleton]
  exact ⟨⟨⟨headerLines_escapeFree hpath hconfig,
    fun u hu => UnitReport.lines_escapeFree (hunits u hu)⟩, summaryLines_escapeFree _ _⟩,
    Line.escapeFree_nil⟩

theorem locatedLine_escapeFree {path : String} {v : Verdict} (hpath : EscapeFree path)
    (hv : ∀ t ∈ v.declaration.texts, EscapeFree t) : (locatedLine path v).EscapeFree := by
  have hname := DeclarationRef.escapeFree_displayName hv
  simp [EscapeFree, Line.EscapeFree, locatedLine, Reason.remark, hpath, hname]

/-- **Colour never changes the text.**  Let no text of a report, of its path and of its
configuration have an escape character.  Then deleting the escape sequences from the report in
colour gives the report without colour.  The same holds of the answer to which empty declaration
stands at a position. -/
theorem colour_leaves_text (path : String) :
    (∀ (config : Option String) (units : List UnitReport) (showAll : Bool),
        (∀ t ∈ path :: (config.toList ++ units.flatMap UnitReport.texts), EscapeFree t) →
        uncoloured (prettyReport path config units showAll true) =
          prettyReport path config units showAll false) ∧
      ∀ v : Verdict, (∀ t ∈ path :: v.declaration.texts, EscapeFree t) →
        uncoloured (locatedText path v true) = locatedText path v false := by
  constructor
  · intro config units showAll h
    exact uncoloured_paintLines (reportLines_escapeFree h showAll)
  · intro v h
    obtain ⟨hpath, hv⟩ := List.forall_mem_cons.mp h
    exact uncoloured_paintLines (List.forall_mem_singleton.mpr (locatedLine_escapeFree hpath hv))

/-- A verdict on a function whose name looks like the rest of an escape sequence. -/
def disguisedVerdict : Verdict :=
  ⟨⟨0, .function, some "[34m", default, none⟩, true, .noStatements, []⟩

/-- A unit in which every text looks like a part of an escape sequence. -/
def disguisedUnit : UnitReport :=
  ⟨"[0m.py", "1m", ⟨[.classified disguisedVerdict,
    .failed ⟨1, .classLike, some "[", default, none⟩ (.malformed 1 ";1m")]⟩,
    [.unsupported "[2m" default], true⟩

theorem disguisedUnit_uncoloured :
    (∀ t ∈ "m" :: ((some "[m.yaml").toList ++ [disguisedUnit].flatMap UnitReport.texts),
        EscapeFree t) ∧
      (∀ showAll, uncoloured (prettyReport "m" (some "[m.yaml") [disguisedUnit] showAll true) =
        prettyReport "m" (some "[m.yaml") [disguisedUnit] showAll false) ∧
      (∀ t ∈ "m" :: disguisedVerdict.declaration.texts, EscapeFree t) ∧
      uncoloured (locatedText "m" disguisedVerdict true) =
        locatedText "m" disguisedVerdict false := by
  have hreport : ∀ t ∈ "m" :: ((some "[m.yaml").toList ++
      [disguisedUnit].flatMap UnitReport.texts), EscapeFree t := by decide
  have hverdict : ∀ t ∈ "m" :: disguisedVerdict.declaration.texts, EscapeFree t := by decide
  obtain ⟨hpretty, hlocated⟩ := colour_leaves_text "m"
  exact ⟨hreport, fun showAll => hpretty _ _ showAll hreport, hverdict, hlocated _ hverdict⟩

end Hollow
