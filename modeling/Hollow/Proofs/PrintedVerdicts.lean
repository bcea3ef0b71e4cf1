import Hollow.Proofs.Conservation
import Hollow.Proofs.Cursor
import Hollow.Render

/-!
# What a printed report lists

A printed report leaves out every part of a unit in which nothing is empty, and decides so anew at
each level.  The counts below the report come from a flat walk.  Both agree: leaving out never hides
an empty declaration, and each one is written out once.  It takes one line of the text unless the
name of the declaration has line breaks, for a name is written as it is.

* `writtenLines`, `writtenLines_paintLines` — the lines of a text, and those of a painted one.
* `Piece.count_paint` — paint has no line breaks of its own.
* `Verdict.hasEmpty_of_mem_spots` — whatever leads to an empty declaration has one inside.
* `Verdict.lines_eq` — a verdict is printed as the spots in it that lead to empty ones.
* `Spot.text`, `Spot.length_written`, `Spot.written_eq_singleton` — what is written for a spot.
* `UnitReport.written_eq` — what is written for a unit.
* `countP_written` — the lines tagged empty, counted.
* `report_lists_every_empty` — the contract of printed reports.
* `brokenName_takes_two_lines` — a name with a line break.
-/

namespace Hollow

/-! ## Lines of a text -/

/-- The lines of a text, each of them ended by a line break. -/
def writtenLines (text : String) : List (List Char) := (text.toList.splitOn '\n').dropLast

/-- The lines of the text that a line is painted as. -/
def Line.written (colour : Bool) (l : Line) : List (List Char) :=
  (l.flatMap (Piece.paint colour)).splitOn '\n'

/-- There is one part more than there are separators. -/
theorem length_splitOn (c : Char) (text : List Char) :
    (text.splitOn c).length = text.count c + 1 := by
  induction text with
  | nil => rfl
  | cons d text ih =>
    rw [List.splitOn_cons_eq_if_modifyHead, List.count_cons]
    split_ifs with h
    · rw [List.length_cons, ih]
    · rw [List.length_modifyHead, ih]

theorem splitOn_flatMap_paint (colour : Bool) (ls : List Line) :
    (ls.flatMap (Line.paint colour)).splitOn '\n' = ls.flatMap (Line.written colour) ++ [[]] := by
  induction ls with
  | nil => rfl
  | cons l ls ih =>
    rw [List.flatMap_cons, List.flatMap_cons, Line.paint, List.append_assoc, List.singleton_append,
      List.splitOn_append_cons_self, ih, List.append_assoc]
    rfl

/-- **The lines of a painted text** are those of its lines, in order. -/
theorem writtenLines_paintLines (colour : Bool) (ls : List Line) :
    writtenLines (paintLines colour ls) = ls.flatMap (Line.written colour) := by
  rw [writtenLines, paintLines, String.toList_ofList, splitOn_flatMap_paint,
    List.dropLast_concat]

/-! ## Line breaks in painted pieces -/

/-- A character that is no digit stands in no number. -/
theorem not_mem_toDigits {c : Char} (hc : c.isDigit = false) (n : Nat) :
    c ∉ Nat.toDigits 10 n := by
  intro h
  have hdigit := Nat.isDigit_of_mem_toDigits (by decide) (by decide) h
  rw [hc] at hdigit
  cases hdigit

theorem Style.newline_not_mem_start (s : Style) : '\n' ∉ s.start := by
  obtain ⟨bold, dimmed, colour⟩ := s
  rcases colour with _ | colour
  · cases bold <;> cases dimmed <;> decide
  · cases bold <;> cases dimmed <;> cases colour <;> decide

theorem Style.count_resume (s : Style) (text : List Char) :
    (s.resume text).count '\n' = text.count '\n' := by
  have hstart : s.start.count '\n' = 0 := List.count_eq_zero.mpr s.newline_not_mem_start
  induction text using Style.resume.induct with
  | case1 cs ih => simp [resume, reset, hstart, ih]
  | case2 c cs hc ih =>
    rw [resume.eq_2 s c cs hc, List.count_cons, ih, List.count_cons]
  | case3 => rfl

/-- **Paint has no line breaks.**  A painted piece has as many as its text. -/
theorem Piece.count_paint (colour : Bool) (p : Piece) :
    (p.paint colour).count '\n' = p.text.toList.count '\n' := by
  unfold paint
  split_ifs
  · have hstart : p.style.start.count '\n' = 0 :=
      List.count_eq_zero.mpr p.style.newline_not_mem_start
    have hreset : Style.reset.count '\n' = 0 := by decide
    rw [List.count_append, List.count_append, hstart, hreset, p.style.count_resume, zero_add,
      add_zero]
  · rfl

theorem paint_plain (colour : Bool) (text : String) : (plain text).paint colour = text.toList := by
  rw [Piece.paint, if_neg]
  · rfl
  · simp [plain, Style.codes]

/-! ## Marks -/

/-- The mark of an empty declaration. -/
def emptyMark : Piece := { text := "EMPTY", style := { bold := true, colour := some .yellow } }

/-- The first thing in a line of text, behind the indentation, is the mark of an empty
declaration. -/
def isTaggedEmpty (colour : Bool) (line : List Char) : Bool :=
  (emptyMark.paint colour).isPrefixOf (line.dropWhile (· == ' '))

namespace Verdict

/-- The marks of verdicts. -/
theorem mark_cases (v : Verdict) :
    (v.isApplicable = false ∧ v.mark = dimmed "N/A  ") ∨
      (v.isApplicable = true ∧ v.isEmpty = true ∧ v.mark = emptyMark) ∨
      (v.isApplicable = true ∧ v.isEmpty = false ∧ v.mark = coloured .green "ok   ") := by
  unfold mark
  cases v.isApplicable <;> cases v.isEmpty <;> simp [emptyMark]

theorem count_mark (v : Verdict) : v.mark.text.toList.count '\n' = 0 := by
  rcases v.mark_cases with ⟨_, h⟩ | ⟨_, _, h⟩ | ⟨_, _, h⟩ <;> rw [h] <;> decide

/-- A mark stands behind the indentation, and only that of an empty declaration reads so. -/
theorem isTaggedEmpty_mark (colour : Bool) (indent : Nat) (v : Verdict) (rest : List Char) :
    isTaggedEmpty colour (List.replicate indent ' ' ++ (v.mark.paint colour ++ rest)) =
      (v.isApplicable && v.isEmpty) := by
  have hindent : ∀ c ∈ List.replicate indent ' ', (c == ' ') = true := by
    intro c hc
    rw [List.eq_of_mem_replicate hc]
    rfl
  rw [isTaggedEmpty, List.dropWhile_append_of_pos hindent]
  rcases v.mark_cases with ⟨happ, h⟩ | ⟨happ, hempty, h⟩ | ⟨happ, hempty, h⟩
  · rw [h, happ]
    cases colour <;> rfl
  · rw [h, happ, hempty]
    cases colour <;> rfl
  · rw [h, happ, hempty]
    cases colour <;> rfl

end Verdict

/-! ## Leaving out -/

namespace Verdict

theorem hasEmpty_eq (v : Verdict) : v.hasEmpty = (v.isEmpty || v.children.any hasEmpty) := by
  rw [hasEmpty, v.walk_eq, List.any_cons, List.any_flatMap]
  rfl

theorem hasEmpty_of_isEmpty {v : Verdict} (h : v.isEmpty = true) : v.hasEmpty = true := by
  rw [hasEmpty_eq, h, Bool.true_or]

/-- Whatever leads to an empty declaration has one inside. -/
theorem hasEmpty_of_mem_spots {above : List Verdict} {v : Verdict} {s : Spot}
    (hs : s ∈ spots above v) (h : s.verdict.hasEmpty = true) : v.hasEmpty = true := by
  induction v using Verdict.induction generalizing above with
  | step v ih =>
    rcases mem_spots_iff.mp hs with rfl | ⟨c, hc, hs⟩
    · exact h
    · rw [hasEmpty_eq, Bool.or_eq_true, List.any_eq_true]
      exact Or.inr ⟨c, hc, ih c hc hs⟩

end Verdict

/-- Whether a printed report has a line for a spot: there is something empty in it, or everything
is shown. -/
def Spot.isPrinted (showAll : Bool) (s : Spot) : Bool := showAll || s.verdict.walk.any (·.isEmpty)

/-- The line of a spot, two spaces further in for each verdict around it. -/
def Spot.line (s : Spot) : Line := s.verdict.line (s.ancestors.length + 2)

namespace Verdict

theorem linesAll_eq_flatMap (showAll : Bool) (level : Nat) (vs : List Verdict) :
    linesAll showAll level vs = vs.flatMap (lines showAll level) := by
  induction vs with
  | nil => rfl
  | cons v vs ih => rw [linesAll, ih, List.flatMap_cons]

theorem lines_of_printed {showAll : Bool} {v : Verdict} (h : (showAll || v.hasEmpty) = true)
    (level : Nat) :
    lines showAll level v = v.line level :: v.children.flatMap (lines showAll (level + 1)) := by
  obtain ⟨declaration, isEmpty, reason, children⟩ := v
  rw [lines, if_pos h, linesAll_eq_flatMap]

theorem lines_of_not_printed {showAll : Bool} {v : Verdict} (h : ¬(showAll || v.hasEmpty) = true)
    (level : Nat) : lines showAll level v = [] := by
  obtain ⟨declaration, isEmpty, reason, children⟩ := v
  rw [lines, if_neg h]

/-- **The lines of a verdict** are those of the spots in it that lead to an empty one, or of all
spots. -/
theorem lines_eq (showAll : Bool) (above : List Verdict) (v : Verdict) :
    lines showAll (above.length + 2) v =
      ((spots above v).filter (Spot.isPrinted showAll)).map Spot.line := by
  induction v using Verdict.induction generalizing above with
  | step v ih =>
    by_cases hv : (showAll || v.hasEmpty) = true
    · have hchildren : v.children.flatMap (lines showAll (above.length + 2 + 1)) =
          ((spotsAll (v :: above) v.children).filter (Spot.isPrinted showAll)).map Spot.line := by
        rw [spotsAll_eq_flatMap, List.filter_flatMap, List.map_flatMap]
        exact List.flatMap_congr fun c hc => ih c hc (v :: above)
      have hself : Spot.isPrinted showAll ⟨v, above⟩ = true := hv
      rw [lines_of_printed hv, hchildren, spots_eq, List.filter_cons_of_pos hself, List.map_cons]
      rfl
    · -- Nothing inside has a line either, since it would lead to an empty verdict here.
      have hnone : ∀ s ∈ spots above v, ¬Spot.isPrinted showAll s = true := by
        intro s hs hprinted
        rw [Spot.isPrinted, Bool.or_eq_true] at hprinted
        refine hv (Bool.or_eq_true _ _ ▸ hprinted.imp_right (hasEmpty_of_mem_spots hs))
      rw [lines_of_not_printed hv, List.filter_eq_nil_iff.mpr hnone, List.map_nil]

end Verdict

/-! ## What is written for a spot -/

theorem DeclarationRef.count_columns (r : DeclarationRef) : r.columns.toList.count '\n' = 0 := by
  have hdigits := @not_mem_toDigits '\n' rfl
  have hkind : '\n' ∉ r.kind.name.toList := by cases r.kind <;> decide
  rw [List.count_eq_zero]
  simp [columns, padRight, Span.text, hdigits, hkind]

theorem Reason.count_remark (r : Reason) : r.remark.text.toList.count '\n' = 0 := by
  cases r <;> decide

namespace Spot

/-- The name in the line of a spot, bold in that of an empty declaration. -/
def name (s : Spot) : Piece :=
  if s.verdict.isEmpty then bold s.verdict.declaration.displayName
  else plain s.verdict.declaration.displayName

/-- What is written for a spot: the indentation by its depth, the mark, place and kind in columns,
the name, and the reason. -/
def text (colour : Bool) (s : Spot) : List Char :=
  List.replicate (2 * (s.ancestors.length + 2)) ' ' ++ (s.verdict.mark.paint colour ++
    (s.verdict.declaration.columns.toList ++ (s.name.paint colour ++
      ("  ".toList ++ s.verdict.reason.remark.paint colour))))

theorem flatMap_paint_line (colour : Bool) (s : Spot) :
    s.line.flatMap (Piece.paint colour) = s.text colour := by
  simp only [line, Verdict.line, List.flatMap_cons, List.flatMap_nil, paint_plain,
    String.toList_ofList, List.append_nil]
  rfl

/-- The lines of the text that is written for a spot. -/
def written (colour : Bool) (s : Spot) : List (List Char) := (s.text colour).splitOn '\n'

theorem written_line (colour : Bool) (s : Spot) : s.line.written colour = s.written colour := by
  rw [Line.written, flatMap_paint_line]
  rfl

/-- The line breaks in what is written for a spot are those of the name. -/
theorem count_text (colour : Bool) (s : Spot) :
    (s.text colour).count '\n' = s.verdict.declaration.displayName.toList.count '\n' := by
  have hname : s.name.text = s.verdict.declaration.displayName := by
    unfold name
    split_ifs <;> rfl
  have hindent : (List.replicate (2 * (s.ancestors.length + 2)) ' ').count '\n' = 0 := by
    rw [List.count_replicate, if_neg (by decide)]
  have hgap : "  ".toList.count '\n' = 0 := by decide
  simp only [text, List.count_append, Piece.count_paint, Verdict.count_mark,
    DeclarationRef.count_columns, Reason.count_remark, hname, hindent, hgap, zero_add, add_zero]

/-- **A verdict takes one line and one more for each line break in its name.** -/
theorem length_written (colour : Bool) (s : Spot) :
    (s.written colour).length = s.verdict.declaration.displayName.toList.count '\n' + 1 := by
  rw [written, length_splitOn, count_text]

theorem written_eq_singleton (colour : Bool) {s : Spot}
    (h : '\n' ∉ s.verdict.declaration.displayName.toList) :
    s.written colour = [s.text colour] := by
  rw [written, List.splitOn_eq_singleton]
  rwa [← List.count_eq_zero, count_text, List.count_eq_zero]

theorem isTaggedEmpty_text (colour : Bool) (s : Spot) :
    isTaggedEmpty colour (s.text colour) = (s.verdict.isApplicable && s.verdict.isEmpty) :=
  s.verdict.isTaggedEmpty_mark colour _ _

end Spot

/-! ## What is written for a unit -/

namespace UnitReport

variable {showAll : Bool} {u : UnitReport}

/-- The spots of a unit that a printed report has lines for, depth-first. -/
def printed (showAll : Bool) (u : UnitReport) : List Spot :=
  u.report.spots.filter (Spot.isPrinted showAll)

/-- The lines of the text that the block of a unit is painted as. -/
def written (showAll colour : Bool) (u : UnitReport) : List (List Char) :=
  (u.lines showAll).flatMap (Line.written colour)

theorem verdictLines_eq (showAll : Bool) (u : UnitReport) :
    u.verdictLines showAll = (u.printed showAll).map Spot.line := by
  rw [verdictLines, Verdict.linesAll_eq_flatMap, printed, Report.spots,
    Verdict.spotsAll_eq_flatMap, List.filter_flatMap, List.map_flatMap]
  exact List.flatMap_congr fun v _ => Verdict.lines_eq showAll [] v

theorem isPrinted_of_isEmpty {s : Spot} (h : s.verdict.isEmpty = true) :
    s.isPrinted showAll = true := by
  rw [Spot.isPrinted, Bool.or_eq_true]
  exact Or.inr (Verdict.hasEmpty_of_isEmpty h)

/-- Where nothing is printed, nothing is empty. -/
theorem isEmpty_of_printed_eq_nil (h : u.printed showAll = []) :
    ∀ v ∈ u.report.allVerdicts, v.isEmpty = false := by
  intro v hv
  rw [← Report.map_verdict_spots] at hv
  obtain ⟨s, hs, rfl⟩ := List.mem_map.mp hv
  rw [← Bool.not_eq_true]
  exact fun hempty => List.filter_eq_nil_iff.mp h s hs (isPrinted_of_isEmpty hempty)

/-- A unit that is not listed has nothing to list. -/
theorem nothing_of_not_isListed (h : ¬u.isListed showAll = true) :
    u.printed showAll = [] ∧ u.report.failures = [] ∧ u.diagnostics = [] := by
  simp only [isListed, Bool.or_eq_true, not_or, List.any_eq_true, not_exists, not_and,
    Bool.not_eq_true', Bool.not_eq_false, List.isEmpty_iff] at h
  obtain ⟨⟨hverdicts, hfailures⟩, hdiagnostics⟩ := h
  refine ⟨?_, hfailures, hdiagnostics⟩
  have hlines : u.verdictLines showAll = [] := by
    rw [verdictLines, Verdict.linesAll_eq_flatMap, List.flatMap_eq_nil_iff]
    intro v hv
    refine Verdict.lines_of_not_printed ?_ 2
    rw [Bool.or_eq_true, not_or]
    exact hverdicts v hv
  rwa [verdictLines_eq, List.map_eq_nil_iff] at hlines

/-- **What is written for a unit**: its title, its printed spots, its failures and diagnostics, and
an empty line; or nothing but a notice, where there is nothing to list. -/
theorem written_cases (showAll colour : Bool) (u : UnitReport) :
    u.written showAll colour =
        u.titleLine.written colour ++ (u.printed showAll).flatMap (Spot.written colour) ++
          (u.report.failures.map failureLine ++ u.diagnostics.map diagnosticLine).flatMap
            (Line.written colour) ++ [[]] ∨
      u.printed showAll = [] ∧ u.report.failures = [] ∧ u.diagnostics = [] ∧
        u.written showAll colour =
          if showAll then
            Line.written colour
              [plain "  ", coloured .blue u.path, plain " ", dimmed "(no declarations)"]
          else [] := by
  by_cases hlisted : u.isListed showAll = true
  · left
    have hspots : (u.verdictLines showAll).flatMap (Line.written colour) =
        (u.printed showAll).flatMap (Spot.written colour) := by
      rw [verdictLines_eq, List.flatMap_map]
      exact List.flatMap_congr fun s _ => s.written_line colour
    have hblank : Line.written colour [] = [[]] := rfl
    rw [written, lines, if_pos hlisted]
    simp only [List.flatMap_append, List.flatMap_singleton, hspots, hblank, List.append_assoc]
  · right
    obtain ⟨hprinted, hfailures, hdiagnostics⟩ := nothing_of_not_isListed hlisted
    refine ⟨hprinted, hfailures, hdiagnostics, ?_⟩
    rw [written, lines, if_neg hlisted]
    split_ifs
    · exact List.flatMap_singleton ..
    · rfl

/-- The texts tagged empty that are written for a unit, counted. -/
theorem countP_texts (showAll colour : Bool) (u : UnitReport) :
    ((u.printed showAll).map (Spot.text colour)).countP (isTaggedEmpty colour) =
      u.summary.empty := by
  -- What is tagged empty is empty, and so it is printed.
  have hcounted : ∀ s : Spot, (isTaggedEmpty colour (s.text colour) && s.isPrinted showAll) =
      (s.verdict.isApplicable && s.verdict.isEmpty) := by
    intro s
    rw [Spot.isTaggedEmpty_text]
    cases hempty : s.verdict.isEmpty
    · simp
    · simp [isPrinted_of_isEmpty hempty]
  rw [printed, List.countP_map, List.countP_filter, summary, Report.summary_eq,
    ← Report.map_verdict_spots, List.countP_map]
  exact List.countP_congr fun s _ => by simp only [Function.comp_apply, hcounted]

end UnitReport

/-! ## Whole reports -/

theorem writtenLines_prettyReport (path : String) (config : Option String)
    (units : List UnitReport) (showAll colour : Bool) :
    writtenLines (prettyReport path config units showAll colour) =
      (headerLines path config).flatMap (Line.written colour) ++
        units.flatMap (UnitReport.written showAll colour) ++
        (summaryLines units.length (totalSummary units)).flatMap (Line.written colour) ++ [[]] := by
  rw [prettyReport, writtenLines_paintLines, reportLines, List.flatMap_append, List.flatMap_append,
    List.flatMap_append, List.flatMap_assoc]
  rfl

/-- **As many lines are tagged empty as empty declarations are counted**, if no name has a line
break. -/
theorem countP_written {units : List UnitReport}
    (h : ∀ u ∈ units, ∀ v ∈ u.report.allVerdicts, '\n' ∉ v.declaration.displayName.toList)
    (showAll colour : Bool) :
    (units.flatMap fun u => (u.printed showAll).flatMap (Spot.written colour)).countP
        (isTaggedEmpty colour) = (totalSummary units).empty := by
  have htexts : ∀ u ∈ units, (u.printed showAll).flatMap (Spot.written colour) =
      (u.printed showAll).map (Spot.text colour) := by
    intro u hu
    rw [← List.flatMap_pure_eq_map]
    refine List.flatMap_congr fun s hs => s.written_eq_singleton colour (h u hu _ ?_)
    exact Report.verdict_mem_allVerdicts (List.mem_filter.mp hs).1
  rw [List.flatMap_congr htexts, List.countP_flatMap, totalSummary_eq]
  congr 1
  exact List.map_congr_left fun u _ => u.countP_texts showAll colour

/-- **A printed report shows every empty declaration exactly once.**  The lines of its text are
those of a header, of the blocks of the units, and of a summary.  A block is a title, what is
written for the verdicts that are empty or lead to an empty one, or for all verdicts, in
depth-first order, then failures and diagnostics; only a unit without empty verdicts, failures and
diagnostics can lack it.  What is written for a verdict is indented by its depth and takes one
line, and one more for each line break in its name.  If no name has one, then as many lines are
tagged empty as are counted, whether everything is shown or not. -/
theorem report_lists_every_empty (path : String) (config : Option String)
    (units : List UnitReport) (showAll colour : Bool) :
    writtenLines (prettyReport path config units showAll colour) =
        (headerLines path config).flatMap (Line.written colour) ++
          units.flatMap (UnitReport.written showAll colour) ++
          (summaryLines units.length (totalSummary units)).flatMap (Line.written colour) ++ [[]] ∧
      (∀ u : UnitReport,
        u.report.spots.map (·.verdict) = u.report.allVerdicts ∧
          (u.written showAll colour =
              u.titleLine.written colour ++ (u.printed showAll).flatMap (Spot.written colour) ++
                (u.report.failures.map failureLine ++ u.diagnostics.map diagnosticLine).flatMap
                  (Line.written colour) ++ [[]] ∨
            u.printed showAll = [] ∧ (∀ v ∈ u.report.allVerdicts, v.isEmpty = false) ∧
              u.report.failures = [] ∧ u.diagnostics = [] ∧
              u.written showAll colour =
                if showAll then
                  Line.written colour
                    [plain "  ", coloured .blue u.path, plain " ", dimmed "(no declarations)"]
                else [])) ∧
      (∀ s : Spot,
        (s.written colour).length = s.verdict.declaration.displayName.toList.count '\n' + 1 ∧
          ('\n' ∉ s.verdict.declaration.displayName.toList →
            s.written colour = [s.text colour])) ∧
      ((∀ u ∈ units, ∀ v ∈ u.report.allVerdicts, '\n' ∉ v.declaration.displayName.toList) →
        (units.flatMap fun u => (u.printed showAll).flatMap (Spot.written colour)).countP
          (isTaggedEmpty colour) = (totalSummary units).empty) := by
  refine ⟨writtenLines_prettyReport path config units showAll colour,
    fun u => ⟨u.report.map_verdict_spots, ?_⟩,
    fun s => ⟨s.length_written colour, s.written_eq_singleton colour⟩,
    fun h => countP_written h showAll colour⟩
  refine (u.written_cases showAll colour).imp_right ?_
  rintro ⟨hprinted, hfailures, hdiagnostics, hwritten⟩
  exact ⟨hprinted, UnitReport.isEmpty_of_printed_eq_nil hprinted, hfailures, hdiagnostics, hwritten⟩

/-- A unit in which one method is empty, two classes down, beside others that are not. -/
def layeredUnit : UnitReport :=
  let ref := fun (id : Nat) (kind : Kind) (name : String) =>
    DeclarationRef.mk id kind (some name) default none
  ⟨"shapes.cpp", "cpp", ⟨[.classified ⟨ref 0 .classLike "Shape", false, .hasContent,
    [⟨ref 1 .classLike "Pen", false, .hasContent,
      [⟨ref 2 .method "area", false, .noBody, []⟩,
        ⟨ref 3 .method "draw", true, .noStatements, []⟩]⟩,
      ⟨ref 4 .method "fill", false, .hasContent, []⟩]⟩]⟩, [], false⟩

theorem layeredUnit_lists_every_empty :
    (∀ u ∈ [layeredUnit], ∀ v ∈ u.report.allVerdicts,
        '\n' ∉ v.declaration.displayName.toList) ∧
      (layeredUnit.printed false).flatMap (Spot.written false) =
        ["    ok    0:0      class       Shape  (has content)".toList,
          "      ok    0:0      class       Pen  (has content)".toList,
          "        EMPTY 0:0      method      draw  (no statements)".toList] ∧
      ∀ showAll colour, ([layeredUnit].flatMap fun u =>
        (u.printed showAll).flatMap (Spot.written colour)).countP (isTaggedEmpty colour) = 1 := by
  have hnames : ∀ u ∈ [layeredUnit], ∀ v ∈ u.report.allVerdicts,
      '\n' ∉ v.declaration.displayName.toList := by decide
  refine ⟨hnames, by decide +kernel, fun showAll colour => ?_⟩
  exact (report_lists_every_empty "src" none [layeredUnit] showAll colour).2.2.2 hnames

/-- A unit with one empty method, whose qualified name is spread over two lines. -/
def brokenNameUnit : UnitReport :=
  ⟨"a.cpp", "cpp", ⟨[.classified
    ⟨⟨0, .function, some "A::\n  f", default, none⟩, true, .noStatements, []⟩]⟩, [], false⟩

/-- **One verdict, two lines.**  The line break of the name is written as it is. -/
theorem brokenName_takes_two_lines :
    brokenNameUnit.report.allVerdicts.map (·.isEmpty) = [true] ∧
      prettyReport "src" none [brokenNameUnit] false false =
        "\n  emptycheck v0.1.0\n\n  Scanning: src\n\n" ++
          "  a.cpp [cpp]\n    EMPTY 0:0      function    A::\n  f  (no statements)\n\n" ++
          "  Summary  Files: 1  Empty: 1  Non-empty: 0  Not applicable: 0  Failed: 0\n" ++
          "  ✗ 1 empty declaration\n\n" ∧
      brokenNameUnit.written false false =
        ["  a.cpp [cpp]".toList, "    EMPTY 0:0      function    A::".toList,
          "  f  (no statements)".toList, []] :=
  ⟨rfl, by decide +kernel, by decide +kernel⟩

end Hollow
