import Hollow.Proofs.UnitFiles
import Hollow.ScanReport

/-!
# Report files

A written report is read back as the report it was written for: the same version, path,
configuration, number of files, counts and units.

* `DeclarationRef.Fits`, `Entry.Fits`, `UnitReport.Fits`, `ScanReport.Fits` — the numbers in a
  report fit, as they do in every report that was ever held in memory;
* `Verdict.readsBack` — verdicts, by their nesting;
* `Entry.readsBack` — entries: a judged one is its verdict with a status in front, a failed one
  holds a fault that has a tag of its own;
* `ScanReport.readsBack`, `report_survives_file` — the whole document, and its text.
-/

namespace Hollow

open Json (Value ReadsBack Slots)

/-! ## What fits into a file -/

/-- The numbers of a reference fit. -/
structure DeclarationRef.Fits (r : DeclarationRef) : Prop where
  id : r.id < UInt32.size
  span : r.span.Fits
  bodySpan : ∀ s ∈ r.bodySpan, s.Fits

/-- The numbers in an entry fit, at every depth. -/
def Entry.Fits : Entry → Prop
  | .classified v => ∀ w ∈ v.walk, w.declaration.Fits
  | .failed declaration fault => declaration.Fits ∧ fault.Fits

/-- The numbers in the report on a unit fit. -/
structure UnitReport.Fits (u : UnitReport) : Prop where
  entries : ∀ e ∈ u.report.entries, e.Fits
  diagnostics : ∀ f ∈ u.diagnostics, f.Fits

/-- The counts fit 64 bits. -/
structure Summary.Fits (s : Summary) : Prop where
  empty : s.empty < UInt64.size
  nonEmpty : s.nonEmpty < UInt64.size
  notApplicable : s.notApplicable < UInt64.size
  failed : s.failed < UInt64.size

/-- The numbers of a document fit. -/
structure ScanReport.Fits (r : ScanReport) : Prop where
  filesScanned : r.filesScanned < UInt64.size
  summary : r.summary.Fits
  units : ∀ u ∈ r.units, u.Fits

/-! ## Verdicts -/

theorem Reason.readsBack (r : Reason) : ReadsBack Reason.read (fun r => .string r.name) r :=
  ⟨.string _, fun _ _ _ => by cases r <;> rfl⟩

theorem DeclarationRef.readsBack {r : DeclarationRef} (h : r.Fits) :
    ReadsBack DeclarationRef.read DeclarationRef.toJson r := by
  have hid := ReadsBack.natural (by decide) h.id
  have hkind := r.kind.readsBack
  have hname : ∀ n ∈ r.name, ReadsBack Json.text Value.string n := fun n _ => ReadsBack.text n
  have hspan := Span.readsBack h.span
  have hbody : ∀ s ∈ r.bodySpan, ReadsBack Span.read Span.toJson s := fun s hs =>
    Span.readsBack (h.bodySpan s hs)
  have hwrite : r.toJson = .object (Slots.filled [("id", some (.natural r.id)),
      ("kind", some (.string r.kind.name)), ("name", r.name.map .string),
      ("span", some r.span.toJson), ("body_span", r.bodySpan.map Span.toJson)]) := by
    obtain ⟨id, kind, name, span, bodySpan⟩ := r
    cases name <;> cases bodySpan <;> rfl
  refine .ofRecord _ hwrite (by simp) ?_ ?_
  · simpa using ⟨hid.plain, hkind.plain, fun n hn => (hname n hn).plain, hspan.plain,
      fun s hs => (hbody s hs).plain⟩
  · intro source room fields hhold
    simp only [Json.identifier, hid.required "id" hhold rfl, hkind.required "kind" hhold rfl,
      ReadsBack.optional hname "name" hhold rfl (by simp), hspan.required "span" hhold rfl,
      ReadsBack.optional hbody "body_span" hhold rfl (by simp [Span.toJson]), bind, Except.bind,
      pure, Except.pure]

namespace Verdict

theorem listToJson_eq_map (vs : List Verdict) : listToJson vs = vs.map toJson := by
  induction vs with
  | nil => rfl
  | cons v vs ih => rw [listToJson, ih, List.map_cons, toJson]

/-- The fields that a verdict is written with. -/
def slots (v : Verdict) : Slots :=
  [("declaration", some v.declaration.toJson), ("is_empty", some (.bool v.isEmpty)),
    ("reason", some (.string v.reason.name)),
    ("children", some (.array (v.children.map toJson)))]

theorem fields_eq (v : Verdict) : v.fields = v.slots.filled := by
  obtain ⟨declaration, isEmpty, reason, children⟩ := v
  rw [fields, listToJson_eq_map]
  rfl

theorem toJson_eq (v : Verdict) : v.toJson = .object v.slots.filled := by
  rw [toJson, fields_eq]

theorem readsBack_within {v : Verdict} (h : ∀ w ∈ v.walk, w.declaration.Fits) {depth : Nat}
    (hdepth : v.toJson.depth ≤ depth) : ReadsBack (readWithin depth) toJson v := by
  induction v using Verdict.induction generalizing depth with
  | step v ih =>
    rw [walk_eq, List.forall_mem_cons] at h
    cases depth with
    | zero =>
      rw [toJson, Value.depth] at hdepth
      omega
    | succ depth =>
      have hdeclaration := DeclarationRef.readsBack h.1
      have hempty := ReadsBack.flag v.isEmpty
      have hreason := v.reason.readsBack
      have hchildren : ReadsBack (Json.listOf (readWithin depth))
          (fun vs => .array (vs.map toJson)) v.children := by
        refine ReadsBack.listOf fun c hc => ih c hc (fun w hw => ?_) ?_
        · exact h.2 w (List.mem_flatMap.mpr ⟨c, hc, hw⟩)
        · rw [toJson_eq] at hdepth
          have hchild := Slots.depth_element hdepth "children" (by simp [slots])
            (List.mem_map_of_mem (f := toJson) hc)
          omega
      refine .ofRecord v.slots v.toJson_eq (by simp [slots]) ?_ ?_
      · simpa [slots] using
          ⟨hdeclaration.plain, hempty.plain, hreason.plain, hchildren.plain⟩
      · intro source room fields hhold
        simp only [hdeclaration.required "declaration" hhold rfl,
          hempty.required "is_empty" hhold rfl, hreason.required "reason" hhold rfl,
          hchildren.orElse "children" hhold rfl (Or.inl rfl), bind, Except.bind, pure,
          Except.pure]
        cases v
        rfl

theorem readsBack {v : Verdict} (h : ∀ w ∈ v.walk, w.declaration.Fits)
    (hdepth : v.toJson.depth ≤ Json.nestingLimit) : ReadsBack read toJson v :=
  readsBack_within h hdepth

end Verdict

/-! ## Entries -/

theorem Entry.readsBack {e : Entry} (h : e.Fits) (hdepth : e.toJson.depth ≤ Json.nestingLimit) :
    ReadsBack Entry.read Entry.toJson e := by
  cases e with
  | classified v =>
    have hverdict : ReadsBack Verdict.read Verdict.toJson v := by
      refine Verdict.readsBack h ?_
      -- Without its status the object nests no deeper.
      rw [toJson, Value.depth, Value.depthFields] at hdepth
      rw [Verdict.toJson, Value.depth]
      omega
    refine .ofTagged rfl (by simp [Verdict.fields_eq, Slots.filled, Verdict.slots]) ?_
    refine ⟨hverdict.plain, fun source room hroom => ?_⟩
    have hread := hverdict.reads source room hroom
    rw [Verdict.toJson] at hread
    simp only [hread, Except.map]
  | failed declaration fault =>
    have hdeclaration := DeclarationRef.readsBack h.1
    have hfault := Fault.readsBack h.2
    refine .ofTagged rfl (by simp) (.ofRecord [("declaration", some declaration.toJson),
      ("error", some fault.toJson)] rfl (by simp) ?_ ?_)
    · simp [hdeclaration.plain, hfault.plain]
    · intro source room fields hhold
      simp only [hdeclaration.required "declaration" hhold rfl, hfault.required "error" hhold rfl,
        bind, Except.bind, pure, Except.pure]

/-! ## Reports and documents -/

theorem Report.readsBack {r : Report} (h : ∀ e ∈ r.entries, e.Fits)
    (hdepth : r.toJson.depth ≤ Json.nestingLimit) : ReadsBack Report.read Report.toJson r := by
  have hwrite : r.toJson =
      .object (Slots.filled [("entries", some (.array (r.entries.map Entry.toJson)))]) := rfl
  have hentries : ReadsBack (Json.listOf Entry.read) (fun es => .array (es.map Entry.toJson))
      r.entries := by
    refine ReadsBack.listOf fun e he => Entry.readsBack (h e he) ?_
    rw [hwrite] at hdepth
    have hentry := Slots.depth_element hdepth "entries" (by simp)
      (List.mem_map_of_mem (f := Entry.toJson) he)
    omega
  refine .ofRecord _ hwrite (by simp) ?_ ?_
  · simpa using hentries.plain
  · intro source room fields hhold
    simp only [hentries.required "entries" hhold rfl, bind, Except.bind, pure, Except.pure]

theorem Summary.readsBack {s : Summary} (h : s.Fits) : ReadsBack Summary.read Summary.toJson s := by
  have hempty := ReadsBack.natural (Nat.le_refl _) h.empty
  have hnonEmpty := ReadsBack.natural (Nat.le_refl _) h.nonEmpty
  have hnotApplicable := ReadsBack.natural (Nat.le_refl _) h.notApplicable
  have hfailed := ReadsBack.natural (Nat.le_refl _) h.failed
  refine .ofRecord [("empty", some (.natural s.empty)), ("non_empty", some (.natural s.nonEmpty)),
    ("not_applicable", some (.natural s.notApplicable)), ("failed", some (.natural s.failed))] rfl
    (by simp) ?_ ?_
  · simp [hempty.plain, hnonEmpty.plain, hnotApplicable.plain, hfailed.plain]
  · intro source room fields hhold
    simp only [Json.size, hempty.required "empty" hhold rfl,
      hnonEmpty.required "non_empty" hhold rfl, hnotApplicable.required "not_applicable" hhold rfl,
      hfailed.required "failed" hhold rfl, bind, Except.bind, pure, Except.pure]

namespace UnitReport

/-- The fields that the report on a unit is written with. -/
def slots (u : UnitReport) : Slots :=
  [("path", some (.string u.path)), ("language", some (.string u.language)),
    ("report", some u.report.toJson), ("diagnostics", diagnosticsSlot u.diagnostics),
    ("has_parse_errors", some (.bool u.hasParseErrors))]

theorem toJson_eq (u : UnitReport) : u.toJson = .object u.slots.filled := by
  rw [toJson, diagnosticsField_eq]
  rcases diagnosticsSlot_cases u.diagnostics with h | ⟨h, -⟩ <;> simp [slots, Slots.filled, h]

theorem readsBack {u : UnitReport} (h : u.Fits) (hdepth : u.toJson.depth ≤ Json.nestingLimit) :
    ReadsBack read toJson u := by
  have hpath := ReadsBack.text u.path
  have hlanguage := ReadsBack.text u.language
  have hreport : ReadsBack Report.read Report.toJson u.report := by
    rw [toJson_eq] at hdepth
    exact Report.readsBack h.entries
      (Nat.le_of_lt (Slots.depth_lt hdepth "report" (by simp [slots])))
  have hdiagnostics := readsBack_diagnostics h.diagnostics
  have hflag := ReadsBack.flag u.hasParseErrors
  have hslot := diagnosticsSlot_cases u.diagnostics
  refine .ofRecord u.slots u.toJson_eq (by simp [slots]) ?_ ?_
  · simpa [slots] using ⟨hpath.plain, hlanguage.plain, hreport.plain,
      plain_diagnosticsSlot h.diagnostics, hflag.plain⟩
  · intro source room fields hhold
    simp only [hpath.required "path" hhold rfl, hlanguage.required "language" hhold rfl,
      hreport.required "report" hhold rfl, hdiagnostics.orElse "diagnostics" hhold rfl hslot,
      hflag.orElse "has_parse_errors" hhold rfl (Or.inl rfl), bind, Except.bind, pure, Except.pure]

end UnitReport

namespace ScanReport

/-- The fields that a document is written with. -/
def slots (r : ScanReport) : Slots :=
  [("version", some (.string r.version)), ("path", some (.string r.path)),
    ("config", r.config.map .string), ("files_scanned", some (.natural r.filesScanned)),
    ("summary", some r.summary.toJson), ("units", some (.array (r.units.map UnitReport.toJson)))]

theorem toJson_eq (r : ScanReport) : r.toJson = .object r.slots.filled := by
  obtain ⟨version, path, config, filesScanned, summary, units⟩ := r
  cases config <;> rfl

theorem readsBack {r : ScanReport} (h : r.Fits) (hdepth : r.toJson.depth ≤ Json.nestingLimit) :
    ReadsBack read toJson r := by
  have hversion := ReadsBack.text r.version
  have hpath := ReadsBack.text r.path
  have hconfig : ∀ c ∈ r.config, ReadsBack Json.text Value.string c := fun c _ => ReadsBack.text c
  have hfiles := ReadsBack.natural (Nat.le_refl _) h.filesScanned
  have hsummary := Summary.readsBack h.summary
  have hunits : ReadsBack (Json.listOf UnitReport.read)
      (fun us => .array (us.map UnitReport.toJson)) r.units := by
    refine ReadsBack.listOf fun u hu => UnitReport.readsBack (h.units u hu) ?_
    rw [toJson_eq] at hdepth
    have hunit := Slots.depth_element hdepth "units" (by simp [slots])
      (List.mem_map_of_mem (f := UnitReport.toJson) hu)
    omega
  refine .ofRecord r.slots r.toJson_eq (by simp [slots]) ?_ ?_
  · simpa [slots] using ⟨hversion.plain, hpath.plain, fun c hc => (hconfig c hc).plain,
      hfiles.plain, hsummary.plain, hunits.plain⟩
  · intro source room fields hhold
    simp only [Json.size, hversion.required "version" hhold rfl, hpath.required "path" hhold rfl,
      ReadsBack.optional hconfig "config" hhold rfl (by simp),
      hfiles.required "files_scanned" hhold rfl, hsummary.required "summary" hhold rfl,
      hunits.required "units" hhold rfl, bind, Except.bind, pure, Except.pure]

end ScanReport

/-- **A written report is read back**, with everything it says, and writing it again gives the same
text. -/
theorem report_survives_file {path : String} {config : Option String} {units : List UnitReport}
    (hfits : (ScanReport.ofUnits path config units).Fits)
    (hdepth : (ScanReport.ofUnits path config units).toJson.depth ≤ Json.nestingLimit) :
    ∃ r, ScanReport.ofJson (jsonReport path config units) = .ok r ∧
      r = ScanReport.ofUnits path config units ∧
      (r.version = programVersion ∧ r.path = path ∧ r.config = config ∧
        r.filesScanned = units.length ∧ r.summary = totalSummary units ∧ r.units = units) ∧
      r.toJson.pretty ++ "\n" = jsonReport path config units ∧
      jsonReport r.path r.config r.units = jsonReport path config units := by
  have hread := (ScanReport.readsBack hfits hdepth).decode hdepth
  have hblanks : Json.Blanks "\n".toList := by simp [Json.Blanks, Json.isBlank]
  exact ⟨_, hread.2 "\n" hblanks, rfl, ⟨rfl, rfl, rfl, rfl, rfl, rfl⟩, rfl, rfl⟩

/-- A report with a class and its method, a declaration that could not be judged, and a construct
that was left out. -/
def variedReport : UnitReport :=
  let span : Span := ⟨0, UInt64.size - 1, 1, 1, 2, 3⟩
  let method : Verdict := ⟨⟨1, .method, none, span, some span⟩, true, .noStatements, []⟩
  { path := "a\\b.py"
    language := "python"
    report := ⟨[.classified ⟨⟨0, .classLike, some "A\"\n😀", span, none⟩, true, .onlyEmptyMembers,
        [method]⟩,
      .failed ⟨2, .classLike, none, span, none⟩ (.malformed 2 "class without a member list")]⟩
    diagnostics := [.unsupported "decorator" span]
    hasParseErrors := true }

theorem variedReport_survives_file :
    (ScanReport.ofUnits "." (some "c\t.yaml") [variedReport]).Fits ∧
      (ScanReport.ofUnits "." (some "c\t.yaml") [variedReport]).toJson.depth ≤ Json.nestingLimit ∧
      ScanReport.ofJson (jsonReport "." (some "c\t.yaml") [variedReport]) =
        .ok ⟨programVersion, ".", some "c\t.yaml", 1, ⟨2, 0, 0, 1⟩, [variedReport]⟩ := by
  have hspan : Span.Fits ⟨0, UInt64.size - 1, 1, 1, 2, 3⟩ := by constructor <;> decide +kernel
  have hunit : variedReport.Fits := by
    constructor
    · simp only [variedReport, List.forall_mem_cons, Entry.Fits, Verdict.walk, Verdict.walkAll,
        List.append_nil, Fault.Fits]
      exact ⟨⟨⟨by decide, hspan, by simp⟩, ⟨by decide, hspan, by simpa using hspan⟩, by simp⟩,
        ⟨⟨by decide, hspan, by simp⟩, by decide⟩, by simp⟩
    · simpa [variedReport, Fault.Fits] using hspan
  have hfits : (ScanReport.ofUnits "." (some "c\t.yaml") [variedReport]).Fits :=
    ⟨by decide +kernel, by constructor <;> decide +kernel,
      by simpa [ScanReport.ofUnits] using hunit⟩
  have hdepth : (ScanReport.ofUnits "." (some "c\t.yaml") [variedReport]).toJson.depth ≤
      Json.nestingLimit := by
    decide +kernel
  obtain ⟨_, hread, rfl, _⟩ := report_survives_file hfits hdepth
  exact ⟨hfits, hdepth, hread⟩

end Hollow
