import Hollow.Command.Run
import Hollow.Proofs.JsonReading
import Hollow.Proofs.Utf8Texts
import Hollow.Proofs.Walk

/-!
# Unit files

A unit survives being written and read.  What is absent is left out of the file and read as absent,
so that a class whose member list was never filled in stays apart from one without members.

* `Fits` — identifiers fit 32 bits and the numbers of spans 64 bits, as every unit that was ever
  held in memory has it;
* `Span.readsBack`, `Fault.readsBack`, `Body.readsBack`, `Declaration.readsBack`,
  `SourceUnit.readsBack` — one lemma for each type of datum in the file;
* `unit_survives_file` — the statement about texts, and about the command that judges such a file.
-/

namespace Hollow

open Json (Value ReadsBack Slots)

/-! ## What fits into a file -/

/-- The numbers of a span fit 64 bits. -/
structure Span.Fits (s : Span) : Prop where
  startByte : s.startByte < UInt64.size
  endByte : s.endByte < UInt64.size
  startLine : s.startLine < UInt64.size
  startCol : s.startCol < UInt64.size
  endLine : s.endLine < UInt64.size
  endCol : s.endCol < UInt64.size

/-- The numbers in a fault fit. -/
def Fault.Fits : Fault → Prop
  | .unsupported _ span => span.Fits
  | .malformed id _ => id < UInt32.size
  | .emptyInput => True

/-- The spans in a body fit. -/
structure Body.Fits (b : Body) : Prop where
  span : ∀ s ∈ b.span, s.Fits
  statements : ∀ s ∈ b.statements, s.span.Fits

/-- The numbers of a declaration fit, its members apart. -/
structure Declaration.Fits (d : Declaration) : Prop where
  id : d.id < UInt32.size
  span : d.span.Fits
  body : ∀ b ∈ d.body, b.Fits

/-- The numbers in a unit fit, at every depth. -/
structure SourceUnit.Fits (u : SourceUnit) : Prop where
  declarations : ∀ d ∈ Declaration.walkAll u.declarations, d.Fits
  diagnostics : ∀ f ∈ u.diagnostics, f.Fits

/-! ## Spans, faults and bodies -/

theorem Span.readsBack {s : Span} (h : s.Fits) : ReadsBack Span.read Span.toJson s := by
  have hstartByte := ReadsBack.natural (Nat.le_refl _) h.startByte
  have hendByte := ReadsBack.natural (Nat.le_refl _) h.endByte
  have hstartLine := ReadsBack.natural (Nat.le_refl _) h.startLine
  have hstartCol := ReadsBack.natural (Nat.le_refl _) h.startCol
  have hendLine := ReadsBack.natural (Nat.le_refl _) h.endLine
  have hendCol := ReadsBack.natural (Nat.le_refl _) h.endCol
  refine .ofRecord [("start_byte", some (.natural s.startByte)),
    ("end_byte", some (.natural s.endByte)), ("start_line", some (.natural s.startLine)),
    ("start_col", some (.natural s.startCol)), ("end_line", some (.natural s.endLine)),
    ("end_col", some (.natural s.endCol))] rfl (by simp) ?_ ?_
  · simp [hstartByte.plain, hendByte.plain, hstartLine.plain, hstartCol.plain, hendLine.plain,
      hendCol.plain]
  · intro source room fields hhold
    simp only [Json.size, hstartByte.required "start_byte" hhold rfl,
      hendByte.required "end_byte" hhold rfl, hstartLine.required "start_line" hhold rfl,
      hstartCol.required "start_col" hhold rfl, hendLine.required "end_line" hhold rfl,
      hendCol.required "end_col" hhold rfl, bind, Except.bind, pure, Except.pure]

theorem Fault.readsBack {f : Fault} (h : f.Fits) : ReadsBack Fault.read Fault.toJson f := by
  cases f with
  | unsupported nodeKind span =>
    have hkind := ReadsBack.text nodeKind
    have hspan := Span.readsBack h
    refine .ofTagged rfl (by simp) (.ofRecord [("node_kind", some (.string nodeKind)),
      ("span", some span.toJson)] rfl (by simp) ?_ ?_)
    · simp [hkind.plain, hspan.plain]
    · intro source room fields hhold
      simp only [hkind.required "node_kind" hhold rfl, hspan.required "span" hhold rfl, bind,
        Except.bind, pure, Except.pure]
  | malformed id detail =>
    have hid := ReadsBack.natural (by decide) h
    have hdetail := ReadsBack.text detail
    refine .ofTagged rfl (by simp) (.ofRecord [("id", some (.natural id)),
      ("detail", some (.string detail))] rfl (by simp) ?_ ?_)
    · simp [hid.plain, hdetail.plain]
    · intro source room fields hhold
      simp only [Json.identifier, hid.required "id" hhold rfl,
        hdetail.required "detail" hhold rfl, bind, Except.bind, pure, Except.pure]
  | emptyInput =>
    refine .ofTagged rfl (by simp) ⟨.object (by simp), ?_⟩
    intro source room _
    rfl

theorem Kind.readsBack (k : Kind) : ReadsBack Kind.read (fun k => .string k.name) k :=
  ⟨.string _, fun _ _ _ => by cases k <;> rfl⟩

theorem Category.readsBack (c : Category) : ReadsBack Category.read (fun c => .string c.name) c :=
  ⟨.string _, fun _ _ _ => by cases c <;> rfl⟩

theorem Statement.readsBack {s : Statement} (h : s.span.Fits) :
    ReadsBack Statement.read Statement.toJson s := by
  have hcategory := s.category.readsBack
  have hkind := ReadsBack.text s.nodeKind
  have hspan := Span.readsBack h
  refine .ofRecord [("category", some (.string s.category.name)),
    ("node_kind", some (.string s.nodeKind)), ("span", some s.span.toJson)] rfl (by simp) ?_ ?_
  · simp [hcategory.plain, hkind.plain, hspan.plain]
  · intro source room fields hhold
    simp only [hcategory.required "category" hhold rfl,
      hkind.orElse "node_kind" hhold rfl (Or.inl rfl), hspan.required "span" hhold rfl, bind,
      Except.bind, pure, Except.pure]

theorem Body.readsBack {b : Body} (h : b.Fits) : ReadsBack Body.read Body.toJson b := by
  have hspan : ∀ s ∈ b.span, ReadsBack Span.read Span.toJson s := fun s hs =>
    Span.readsBack (h.span s hs)
  have hstatements := ReadsBack.listOf fun s hs => Statement.readsBack (h.statements s hs)
  have hwrite : b.toJson = .object (Slots.filled [("span", b.span.map Span.toJson),
      ("statements", some (.array (b.statements.map Statement.toJson)))]) := by
    obtain ⟨span, statements⟩ := b
    cases span <;> rfl
  refine .ofRecord _ hwrite (by simp) ?_ ?_
  · simpa [hstatements.plain] using fun s hs => (hspan s hs).plain
  · intro source room fields hhold
    simp only [ReadsBack.optional hspan "span" hhold rfl (by simp [Span.toJson]),
      hstatements.orElse "statements" hhold rfl (Or.inl rfl), bind, Except.bind, pure, Except.pure]

/-! ## Declarations -/

namespace Declaration

theorem listToJson_eq_map (ds : List Declaration) : listToJson ds = ds.map toJson := by
  induction ds with
  | nil => rfl
  | cons d ds ih => rw [listToJson, ih, List.map_cons]

/-- The fields that a declaration is written with. -/
def slots (d : Declaration) : Slots :=
  [("id", some (.natural d.id)), ("kind", some (.string d.kind.name)),
    ("name", d.name.map .string), ("span", some d.span.toJson), ("body", d.body.map Body.toJson),
    ("members", d.members.map fun ms => .array (ms.map toJson))]

theorem toJson_eq (d : Declaration) : d.toJson = .object d.slots.filled := by
  obtain ⟨id, kind, name, span, body, members⟩ := d
  have hmembers : membersField members =
      Slots.filled [("members", members.map fun ms => .array (ms.map toJson))] := by
    cases members with
    | none => rfl
    | some ms => rw [membersField, listToJson_eq_map]; rfl
  rw [toJson, hmembers]
  cases name <;> cases body <;> rfl

theorem readsBack_within {d : Declaration} (h : ∀ e ∈ d.walk, e.Fits) {depth : Nat}
    (hdepth : d.toJson.depth ≤ depth) : ReadsBack (readWithin depth) toJson d := by
  -- By the nesting of declarations; each level uses up one of the levels that the reader allows.
  induction d using Declaration.induction generalizing depth with
  | step d ih =>
    have hfits := h d d.self_mem_walk
    cases depth with
    | zero =>
      rw [toJson_eq, Value.depth] at hdepth
      omega
    | succ depth =>
      have hid := ReadsBack.natural (by decide) hfits.id
      have hkind := d.kind.readsBack
      have hname : ∀ n ∈ d.name, ReadsBack Json.text Value.string n := fun n _ =>
        ReadsBack.text n
      have hspan := Span.readsBack hfits.span
      have hbody : ∀ b ∈ d.body, ReadsBack Body.read Body.toJson b := fun b hb =>
        Body.readsBack (hfits.body b hb)
      have hmembers : ∀ ms ∈ d.members,
          ReadsBack (Json.listOf (readWithin depth)) (fun ds => .array (ds.map toJson)) ms := by
        intro ms hms
        have hlist : d.memberList = ms := memberList_some hms
        refine ReadsBack.listOf fun m hm => ih m (hlist ▸ hm) (fun e he => ?_) ?_
        · exact h e (mem_walk_iff.mpr (Or.inr ⟨m, hlist ▸ hm, he⟩))
        · rw [toJson_eq] at hdepth
          have hmember := Slots.depth_element hdepth "members"
            (by simp [slots, Option.mem_def.mp hms]) (List.mem_map_of_mem (f := toJson) hm)
          omega
      refine .ofRecord d.slots d.toJson_eq (by simp [slots]) ?_ ?_
      · simpa [slots] using ⟨hid.plain, hkind.plain, fun n hn => (hname n hn).plain, hspan.plain,
          fun b hb => (hbody b hb).plain, fun ms hms => (hmembers ms hms).plain⟩
      · intro source room fields hhold
        simp only [Json.identifier, hid.required "id" hhold rfl, hkind.required "kind" hhold rfl,
          ReadsBack.optional hname "name" hhold rfl (by simp), hspan.required "span" hhold rfl,
          ReadsBack.optional hbody "body" hhold rfl (by simp [Body.toJson]),
          ReadsBack.optional hmembers "members" hhold rfl (by simp), bind, Except.bind, pure,
          Except.pure]
        cases d
        rfl

theorem readsBack {d : Declaration} (h : ∀ e ∈ d.walk, e.Fits)
    (hdepth : d.toJson.depth ≤ Json.nestingLimit) : ReadsBack read toJson d :=
  readsBack_within h hdepth

end Declaration

/-! ## Units -/

/-- Diagnostics are read back, also when there are none and their field is left out. -/
theorem readsBack_diagnostics {faults : List Fault} (h : ∀ f ∈ faults, f.Fits) :
    ReadsBack (Json.listOf Fault.read) (fun fs => .array (fs.map Fault.toJson)) faults :=
  ReadsBack.listOf fun f hf => Fault.readsBack (h f hf)

/-- The slot of the diagnostics, left out when there are none. -/
def diagnosticsSlot (faults : List Fault) : Option Value :=
  if faults.isEmpty then none else some (.array (faults.map Fault.toJson))

theorem diagnosticsSlot_cases (faults : List Fault) :
    diagnosticsSlot faults = some (.array (faults.map Fault.toJson)) ∨
      diagnosticsSlot faults = none ∧ faults = [] := by
  cases faults with
  | nil => exact Or.inr ⟨rfl, rfl⟩
  | cons f fs => exact Or.inl rfl

theorem plain_diagnosticsSlot {faults : List Fault} (h : ∀ f ∈ faults, f.Fits) :
    ∀ v, diagnosticsSlot faults = some v → v.Plain := by
  intro v hv
  rcases diagnosticsSlot_cases faults with hslot | ⟨hslot, -⟩
  · obtain rfl : _ = v := Option.some.inj (hslot.symm.trans hv)
    exact (readsBack_diagnostics h).plain
  · rw [hslot] at hv
    cases hv

theorem diagnosticsField_eq (faults : List Fault) :
    diagnosticsField faults = Slots.filled [("diagnostics", diagnosticsSlot faults)] := by
  cases faults <;> rfl

namespace SourceUnit

/-- The fields that a unit is written with. -/
def slots (u : SourceUnit) : Slots :=
  [("path", some (.string u.path)), ("language", some (.string u.language)),
    ("declarations", some (.array (u.declarations.map Declaration.toJson))),
    ("diagnostics", diagnosticsSlot u.diagnostics),
    ("has_parse_errors", some (.bool u.hasParseErrors))]

theorem toJson_eq (u : SourceUnit) : u.toJson = .object u.slots.filled := by
  rw [toJson, diagnosticsField_eq, Declaration.listToJson_eq_map]
  rcases diagnosticsSlot_cases u.diagnostics with h | ⟨h, -⟩ <;> simp [slots, Slots.filled, h]

theorem readsBack {u : SourceUnit} (h : u.Fits) (hdepth : u.toJson.depth ≤ Json.nestingLimit) :
    ReadsBack read toJson u := by
  have hpath := ReadsBack.text u.path
  have hlanguage := ReadsBack.text u.language
  have hdeclarations : ReadsBack (Json.listOf Declaration.read)
      (fun ds => .array (ds.map Declaration.toJson)) u.declarations := by
    refine ReadsBack.listOf fun d hd => Declaration.readsBack (fun e he => ?_) ?_
    · exact h.declarations e (Declaration.mem_walkAll_iff.mpr ⟨d, hd, he⟩)
    · rw [toJson_eq] at hdepth
      have hd := Slots.depth_element hdepth "declarations" (by simp [slots])
        (List.mem_map_of_mem (f := Declaration.toJson) hd)
      omega
  have hdiagnostics := readsBack_diagnostics h.diagnostics
  have hflag := ReadsBack.flag u.hasParseErrors
  have hslot := diagnosticsSlot_cases u.diagnostics
  refine .ofRecord u.slots u.toJson_eq (by simp [slots]) ?_ ?_
  · simpa [slots] using ⟨hpath.plain, hlanguage.plain, hdeclarations.plain,
      plain_diagnosticsSlot h.diagnostics, hflag.plain⟩
  · intro source room fields hhold
    simp only [hpath.required "path" hhold rfl, hlanguage.required "language" hhold rfl,
      hdeclarations.orElse "declarations" hhold rfl (Or.inl rfl),
      hdiagnostics.orElse "diagnostics" hhold rfl hslot,
      hflag.orElse "has_parse_errors" hhold rfl (Or.inl rfl), bind, Except.bind, pure, Except.pure]

/-- What the unit command answers, given the unit that the file describes. -/
theorem judgeTree_eq {w : Workspace} {i : Invocation} {config : Config}
    {configPath : Option String} {text : String} {u : SourceUnit}
    (hformat : i.format ∈ outputFormats)
    (hconfig : Command.validConfig w i.config = .ok (config, configPath))
    (htext : w.readText (Utf8.encode i.subject) = .ok text) (hunit : ofJson text = .ok u) :
    Command.judgeTree w i =
      ((classifyUnit config.options u).mapError .fault).map fun report =>
        ⟨exitSuccess, Command.reportText i configPath [report]⟩ := by
  have hcheck : Command.checkFormat i.format = .ok () :=
    if_pos (List.contains_iff_mem.mpr hformat)
  simp only [Command.judgeTree, hcheck, hconfig, htext, Except.mapError, bind, Except.bind, hunit]
  cases classifyUnit config.options u <;> rfl

/-- The texts of a unit: one line, or the indented layout with blanks behind it. -/
def WrittenAs (u : SourceUnit) (text : String) : Prop :=
  text = u.toJson.compact ∨
    ∃ after : String, Json.Blanks after.toList ∧ text = u.toJson.pretty ++ after

theorem ofJson_of_writtenAs {u : SourceUnit} (h : u.Fits)
    (hdepth : u.toJson.depth ≤ Json.nestingLimit) {text : String} (htext : u.WrittenAs text) :
    ofJson text = .ok u := by
  obtain ⟨hcompact, hpretty⟩ := (readsBack h hdepth).decode hdepth
  rcases htext with rfl | ⟨after, hafter, rfl⟩
  · exact hcompact
  · exact hpretty after hafter

end SourceUnit

/-- A file that holds the bytes of a text is read as the text. -/
theorem Workspace.readText_of_read {w : Workspace} {path : RawText} {text : String}
    {content : FileContent} (h : w.read path = .ok content)
    (hbytes : content.bytes = Utf8.encode text) : w.readText path = .ok text := by
  simp only [readText, h, hbytes, Utf8.decode_encode]

/-- **A unit survives being written and read.**  Two units are never written alike, and the command
that judges a file gives the answer that judging the unit itself gives. -/
theorem unit_survives_file {u : SourceUnit} (hfits : u.Fits)
    (hdepth : u.toJson.depth ≤ Json.nestingLimit) {text : String} (htext : u.WrittenAs text) :
    SourceUnit.ofJson text = .ok u ∧
      (∀ v : SourceUnit, v.Fits → v.toJson.depth ≤ Json.nestingLimit → v.WrittenAs text → v = u) ∧
      ∀ (w : Workspace) (i : Invocation) (config : Config) (configPath : Option String)
        (content : FileContent), i.action = .tree → i.format ∈ outputFormats →
        Command.validConfig w i.config = .ok (config, configPath) →
        w.read (Utf8.encode i.subject) = .ok content → content.bytes = Utf8.encode text →
        Command.run w i =
          ((classifyUnit config.options u).mapError .fault).map fun report =>
            ⟨exitSuccess, Command.reportText i configPath [report]⟩ := by
  have hread := SourceUnit.ofJson_of_writtenAs hfits hdepth htext
  refine ⟨hread, ?_, ?_⟩
  · intro v hv hvdepth hvtext
    have hvread := SourceUnit.ofJson_of_writtenAs hv hvdepth hvtext
    exact Except.ok.inj (hvread.symm.trans hread)
  · intro w i config configPath content haction hformat hconfig hfile hbytes
    rw [Command.run, haction]
    exact SourceUnit.judgeTree_eq hformat hconfig (Workspace.readText_of_read hfile hbytes) hread

/-- Three classes: one whose member list was never filled in, one without members, and one with a
method whose body holds nothing. -/
def variedUnit : SourceUnit :=
  let span : Span := ⟨0, UInt64.size - 1, 1, 1, 2, 3⟩
  let klass (id : Nat) (members : Option (List Declaration)) : Declaration :=
    ⟨id, .classLike, some "A\"\n😀", span, none, members⟩
  { path := "a\\b.py"
    language := "python"
    declarations := [klass 0 none, klass 1 (some []),
      klass 2 (some [⟨3, .method, none, span, some ⟨none, []⟩, none⟩])]
    diagnostics := [.unsupported "decorator" span, .emptyInput]
    hasParseErrors := true }

/-- The file with that unit, alone in the working directory. -/
def variedWorkspace : Workspace :=
  { location := Utf8.encode "/w"
    root := .directory
      [(Utf8.encode "u.json", .file ⟨Utf8.encode variedUnit.toJson.compact, none⟩)] }

theorem variedUnit_survives_file :
    variedUnit.Fits ∧ variedUnit.toJson.depth ≤ Json.nestingLimit ∧
      SourceUnit.ofJson variedUnit.toJson.compact = .ok variedUnit ∧
      Command.run variedWorkspace ⟨.tree, "u.json", none, "json", false, false, 0⟩ =
        ((classifyUnit {} variedUnit).mapError .fault).map fun report =>
          ⟨0, jsonReport "u.json" none [report]⟩ := by
  have hspan : Span.Fits ⟨0, UInt64.size - 1, 1, 1, 2, 3⟩ := by constructor <;> decide +kernel
  have hfits : variedUnit.Fits := by
    constructor
    · simp only [variedUnit, Declaration.walkAll, Declaration.walk, Declaration.walkMembers,
        List.append_nil, List.cons_append, List.nil_append, List.forall_mem_cons]
      exact ⟨⟨by decide, hspan, by simp⟩, ⟨by decide, hspan, by simp⟩, ⟨by decide, hspan, by simp⟩,
        ⟨by decide, hspan, by simpa using ⟨by simp, by simp⟩⟩, by simp⟩
    · simpa [variedUnit, Fault.Fits] using hspan
  have hdepth : variedUnit.toJson.depth ≤ Json.nestingLimit := by decide +kernel
  have htext : variedUnit.WrittenAs variedUnit.toJson.compact := Or.inl rfl
  obtain ⟨hread, -, hrun⟩ := unit_survives_file hfits hdepth htext
  have hfile : variedWorkspace.read (Utf8.encode "u.json") =
      .ok ⟨Utf8.encode variedUnit.toJson.compact, none⟩ := by
    rfl
  have hconfig : Command.validConfig variedWorkspace none = .ok ({}, none) := rfl
  refine ⟨hfits, hdepth, hread, ?_⟩
  exact hrun variedWorkspace ⟨.tree, "u.json", none, "json", false, false, 0⟩ {} none _ rfl
    (by decide) hconfig hfile (by simp only)

end Hollow
