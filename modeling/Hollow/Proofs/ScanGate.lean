import Hollow.Command.Run
import Hollow.Proofs.Conservation
import Hollow.Proofs.Cursor
import Hollow.Proofs.Enclosure
import Hollow.Proofs.FilePlaces
import Hollow.Proofs.LanguageSets

/-!
# The gate of a scan

A scan that is told to fail on empty declarations fails exactly when it finds one in a file that it
chose and could judge.  Files that cannot be judged have no say: without them the answer is the
same, letter by letter.

* `exists_of_validate` — a valid configuration names known languages and readable patterns;
* `chosenFiles`, `collectFiles_of_resolve` — the files that a search chooses, in order;
  `chosenFiles_eq_filter` — what is left of them when some are gone;
* `totalSummary_empty_pos_iff`, `mem_analyzeFiles_iff` — when empty declarations are counted, and
  what they are counted over;
* `scan_eq` — what a scan of a directory answers;
* `scan_fails_exactly_on_empty` — the gate.
-/

namespace Hollow

/-! ## Valid configurations -/

theorem exists_readPatterns {patterns : List String}
    (h : ∀ p ∈ patterns, ∃ tokens, Glob.parse p = .ok tokens) :
    ∃ exclusions, Config.readPatterns patterns = .ok exclusions := by
  induction patterns with
  | nil => exact ⟨[], rfl⟩
  | cons p patterns ih =>
    rw [List.forall_mem_cons] at h
    obtain ⟨tokens, htokens⟩ := h.1
    obtain ⟨exclusions, hexclusions⟩ := ih h.2
    exact ⟨tokens :: exclusions, by simp [Config.readPatterns, htokens, hexclusions, Except.map]⟩

theorem exists_of_validate {c : Config} (h : c.validate LanguageSet.builtin.ids = .ok ()) :
    (∃ languages, LanguageSet.builtin.restrict c.languages = .ok languages) ∧
      ∃ exclusions, c.exclusions = .ok exclusions := by
  unfold Config.validate at h
  split at h
  · cases h
  · rename_i hlanguages
    split at h
    · cases h
    · rename_i hpatterns
      constructor
      · unfold LanguageSet.restrict
        split
        · exact ⟨_, rfl⟩
        · rw [hlanguages]
          exact ⟨_, rfl⟩
      · refine exists_readPatterns fun p hp => ?_
        have hp := List.findSome?_eq_none_iff.mp hpatterns p hp
        cases hparse : Glob.parse p with
        | ok tokens => exact ⟨tokens, rfl⟩
        | error problem => simp [hparse] at hp

theorem validate_of_validConfig {w : Workspace} {explicit : Option String} {config : Config}
    {path : Option String} (h : Command.validConfig w explicit = .ok (config, path)) :
    config.validate LanguageSet.builtin.ids = .ok () := by
  unfold Command.validConfig at h
  cases hload : Command.loadConfig w explicit with
  | error failure => simp [hload, bind, Except.bind] at h
  | ok loaded =>
    simp only [hload, bind, Except.bind] at h
    cases hvalid : loaded.1.validate LanguageSet.builtin.ids with
    | error failure => simp [hvalid] at h
    | ok _ =>
      simp only [hvalid, pure, Except.pure, Except.ok.injEq, Prod.mk.injEq] at h
      rw [← h.1]
      exact hvalid

/-! ## The order of files -/

theorem compareComponents_eq (as bs : List RawText) :
    PathName.compareComponents as bs = compare as bs := by
  induction as, bs using PathName.compareComponents.induct with
  | case1 => rfl
  | case2 => rfl
  | case3 => rfl
  | case4 a as b bs ih =>
    change _ = List.compareLex compare (a :: as) (b :: bs)
    rw [PathName.compareComponents, ih, List.compareLex_cons_cons]
    rfl

theorem fileOrder_iff {a b : List RawText} : fileOrder a b = true ↔ (compare a b).isLE = true := by
  rw [fileOrder, compareComponents_eq]
  cases compare a b <;> decide

theorem fileOrder_trans (a b c : List RawText) (hab : fileOrder a b = true)
    (hbc : fileOrder b c = true) : fileOrder a c = true := by
  rw [fileOrder_iff] at hab hbc ⊢
  exact Std.TransCmp.isLE_trans hab hbc

theorem fileOrder_total (a b : List RawText) : (fileOrder a b || fileOrder b a) = true := by
  have hswap : compare b a = (compare a b).swap := Std.OrientedCmp.eq_swap
  rw [Bool.or_eq_true, fileOrder_iff, fileOrder_iff, hswap]
  cases compare a b <;> decide

theorem fileOrder_antisymm {a b : List RawText} (hab : fileOrder a b = true)
    (hba : fileOrder b a = true) : a = b := by
  rw [fileOrder_iff] at hab hba
  exact Std.LawfulEqCmp.eq_of_compare (Std.OrientedCmp.isLE_antisymm hab hba)

/-! ## Chosen files -/

/-- The files of a tree that a search chooses, by the names on the way to them, in order. -/
def chosenFiles (ctx : Context) (c : Config) (exclusions : Config.Exclusions) (start : RawText)
    (tree : FileTree) : List (List RawText) :=
  (((tree.files skipsDirectory).map (·.1)).filter (ctx.chooses c exclusions start)).mergeSort
    fileOrder

section

variable {w : Workspace} {ctx : Context} {c : Config} {exclusions : Config.Exclusions}
  {start : RawText} {tree : FileTree} {place : List RawText}

theorem mem_chosenFiles_iff {names : List RawText} :
    names ∈ chosenFiles ctx c exclusions start tree ↔
      names ∈ (tree.files skipsDirectory).map (·.1) ∧
        ctx.chooses c exclusions start names = true := by
  rw [chosenFiles, List.mem_mergeSort, List.mem_filter]

theorem nodup_chosenFiles (h : tree.WellNamed) :
    (chosenFiles ctx c exclusions start tree).Nodup :=
  (List.mergeSort_perm _ _).nodup_iff.mpr ((FileTree.nodup_files h _).filter _)

theorem pairwise_chosenFiles :
    (chosenFiles ctx c exclusions start tree).Pairwise fun a b => fileOrder a b = true :=
  List.pairwise_mergeSort fileOrder_trans fileOrder_total _

/-- Files in order are settled by which files they are. -/
theorem eq_of_fileOrder {files others : List (List RawText)}
    (hfiles : files.Pairwise fun a b => fileOrder a b = true)
    (hothers : others.Pairwise fun a b => fileOrder a b = true) (hnodup : files.Nodup)
    (hnodup' : others.Nodup) (h : ∀ names, names ∈ files ↔ names ∈ others) : files = others :=
  List.Perm.eq_of_pairwise (fun _ _ _ _ hab hba => fileOrder_antisymm hab hba) hfiles hothers
    ((List.perm_ext_iff_of_nodup hnodup hnodup').mpr h)

/-- When files are gone, those that are left are chosen in the same order. -/
theorem chosenFiles_eq_filter {rest : FileTree} (htree : tree.WellNamed) (hrest : rest.WellNamed)
    (hkept : ∀ f ∈ rest.files skipsDirectory, f ∈ tree.files skipsDirectory) :
    chosenFiles ctx c exclusions start rest =
      (chosenFiles ctx c exclusions start tree).filter fun names =>
        decide (names ∈ (rest.files skipsDirectory).map (·.1)) := by
  refine eq_of_fileOrder pairwise_chosenFiles (pairwise_chosenFiles.filter _)
    (nodup_chosenFiles hrest) ((nodup_chosenFiles htree).filter _) fun names => ?_
  rw [List.mem_filter, mem_chosenFiles_iff, mem_chosenFiles_iff, decide_eq_true_eq]
  constructor
  · rintro ⟨hmem, hchosen⟩
    obtain ⟨f, hf, rfl⟩ := List.mem_map.mp hmem
    exact ⟨⟨List.mem_map_of_mem (hkept f hf), hchosen⟩, hmem⟩
  · rintro ⟨⟨_, hchosen⟩, hmem⟩
    exact ⟨hmem, hchosen⟩

theorem collectFiles_of_resolve (hstart : w.resolve start = .ok (place, tree))
    (hexclusions : c.exclusions = .ok exclusions) :
    collectFiles w ctx c start =
      .ok ((chosenFiles ctx c exclusions start tree).map (pathBelow start)) := by
  simp only [collectFiles, collectBelow, hexclusions, hstart, chosenFiles]
  rfl

end

/-! ## Judging files -/

namespace Context

variable {w : Workspace} {ctx : Context}

theorem analyzeFilesParallel_eq (w : Workspace) (ctx : Context) (paths : List RawText) :
    ctx.analyzeFilesParallel w paths = ctx.analyzeFiles w paths := by
  simp only [analyzeFilesParallel, analyzeFiles, List.map_map]
  rfl

theorem analyzeFiles_perm (w : Workspace) (ctx : Context) (paths : List RawText) :
    (ctx.analyzeFiles w paths).Perm
      (paths.filterMap fun path => (ctx.analyzeFile w path).toOption) := by
  rw [analyzeFiles, sortedReports, List.filterMap_map]
  exact List.mergeSort_perm _ _

theorem analyzeFiles_pairwise (w : Workspace) (ctx : Context) (paths : List RawText) :
    (ctx.analyzeFiles w paths).Pairwise fun a b => a.path ≤ b.path :=
  pairwise_mergeSort_le UnitReport.path _

theorem mem_analyzeFiles_iff {paths : List RawText} {u : UnitReport} :
    u ∈ ctx.analyzeFiles w paths ↔ ∃ path ∈ paths, ctx.analyzeFile w path = .ok u := by
  have hoption : ∀ e : Except Failure UnitReport, e.toOption = some u ↔ e = .ok u := by
    intro e
    cases e <;> simp [Except.toOption]
  simp only [(analyzeFiles_perm w ctx paths).mem_iff, List.mem_filterMap, hoption]

theorem exists_unit_of_analyzeFile {path : RawText} {u : UnitReport}
    (h : ctx.analyzeFile w path = .ok u) :
    ∃ unit, u = unitReport ctx.options.noOpsAreEmpty unit := by
  unfold analyzeFile at h
  simp only at h
  split at h
  · cases h
  · rw [analyzeSource] at h
    split at h
    · cases h
    · rename_i unit _
      cases hclassify : classifyUnit ctx.options unit with
      | error fault => simp [hclassify, Except.mapError] at h
      | ok report =>
        obtain rfl : report = u := by simpa [hclassify, Except.mapError] using h
        exact ⟨unit, (classifyUnit_eq_ok_iff.mp hclassify).2⟩

/-- Empty declarations are counted in a file exactly when it has one, at some depth. -/
theorem summary_empty_pos_iff {path : RawText} {u : UnitReport}
    (h : ctx.analyzeFile w path = .ok u) :
    0 < u.summary.empty ↔ ∃ v ∈ u.report.allVerdicts, v.isEmpty = true := by
  obtain ⟨unit, rfl⟩ := exists_unit_of_analyzeFile h
  rw [UnitReport.summary, Report.summary_eq, List.countP_pos_iff]
  refine exists_congr fun v => and_congr_right fun hv => ?_
  rw [Bool.and_eq_true, and_iff_right_iff_imp]
  exact Report.isApplicable_of_isEmpty hv

/-- One of the files can be judged and has an empty declaration, at some depth. -/
def FindsEmpty (ctx : Context) (w : Workspace) (paths : List RawText) : Prop :=
  ∃ path ∈ paths, ∃ u, ctx.analyzeFile w path = .ok u ∧
    ∃ v ∈ u.report.allVerdicts, v.isEmpty = true

theorem totalSummary_empty_pos_iff {paths : List RawText} :
    0 < (totalSummary (ctx.analyzeFiles w paths)).empty ↔ ctx.FindsEmpty w paths := by
  have hsum : ∀ l : List Nat, 0 < l.sum ↔ ∃ n ∈ l, 0 < n := fun l => List.sum_pos_iff_exists_pos_nat
  rw [totalSummary_eq, hsum]
  constructor
  · rintro ⟨n, hn, hpos⟩
    obtain ⟨u, hu, rfl⟩ := List.mem_map.mp hn
    obtain ⟨path, hpath, hok⟩ := mem_analyzeFiles_iff.mp hu
    exact ⟨path, hpath, u, hok, (summary_empty_pos_iff hok).mp hpos⟩
  · rintro ⟨path, hpath, u, hok, hempty⟩
    refine ⟨u.summary.empty, ?_, (summary_empty_pos_iff hok).mpr hempty⟩
    exact List.mem_map.mpr ⟨u, mem_analyzeFiles_iff.mpr ⟨path, hpath, hok⟩, rfl⟩

/-- What is said of a listed file depends on its path and its content only. -/
theorem analyzeFile_of_mem_files (hlocation : PathName.isAbsolute w.location = true)
    {place : List RawText} {entries : List (RawText × FileTree)}
    (hplace : w.root.Leads place (.directory entries))
    (hentries : (FileTree.directory entries).WellNamed)
    (hbase : ctx.base = Command.absolutePath w place) {skips : RawText → Bool}
    {f : List RawText × FileContent} (hf : f ∈ (FileTree.directory entries).files skips) :
    ctx.analyzeFile w (pathBelow ctx.base f.1) =
      ctx.analyzeSource ((PathName.relativeTo ctx.base (pathBelow ctx.base f.1)).getD
        (pathBelow ctx.base f.1)) f.2 := by
  have hne : f.1 ≠ [] := FileTree.ne_nil_of_mem_filesIn (by simpa [FileTree.files] using hf)
  have hnames := (FileTree.leads_of_mem_files hentries hf).names
  have habsolute : PathName.isAbsolute ctx.base = true := by
    rw [hbase]
    exact isAbsolute_pathBelow hlocation hplace.names
  have hjoin : PathName.join ctx.base (relativePath f.1) = pathBelow w.location (place ++ f.1) := by
    rw [hbase]
    exact join_pathBelow hlocation hplace.names hne hnames
  have hread : w.read (pathBelow ctx.base f.1) = .ok f.2 := by
    rw [pathBelow_of_ne_nil hne, hjoin]
    exact Workspace.read_of_mem_files hlocation hplace hentries hf
  have hfull : PathName.join ctx.base (pathBelow ctx.base f.1) = pathBelow ctx.base f.1 :=
    join_of_isAbsolute (isAbsolute_pathBelow habsolute hnames)
  unfold analyzeFile
  simp only [hfull, hread]

end Context

/-! ## Scans -/

theorem Context.base_of_ofConfig {base : RawText} {c : Config} {ctx : Context}
    (h : Context.ofConfig base c = .ok ctx) : ctx.base = base := by
  rw [ofConfig] at h
  split at h
  · cases h
  · obtain rfl := Except.ok.inj h
    rfl

/-- The exit code of a scan, by what was counted. -/
theorem exitCode_iff {failOnEmpty : Bool} {n code : Nat} {found : Prop} (hfound : 0 < n ↔ found)
    (hcode : code = if failOnEmpty && decide (0 < n) then exitFailed else exitSuccess) :
    (code = 1 ↔ failOnEmpty = true ∧ found) ∧ (code = 0 ↔ ¬(failOnEmpty = true ∧ found)) := by
  by_cases hguard : failOnEmpty = true ∧ found
  · have hfails : (failOnEmpty && decide (0 < n)) = true := by simpa [hfound] using hguard
    rw [if_pos hfails] at hcode
    exact ⟨iff_of_true hcode hguard,
      iff_of_false (by simp [hcode, exitFailed]) (not_not.mpr hguard)⟩
  · have hpasses : ¬(failOnEmpty && decide (0 < n)) = true := by simpa [hfound] using hguard
    rw [if_neg hpasses] at hcode
    exact ⟨iff_of_false (by simp [hcode, exitSuccess]) hguard, iff_of_true hcode hguard⟩

/-- The second tree lists no file that the first does not list, and lacks only files that cannot be
judged. -/
structure LacksOnlyFailures (ctx : Context) (w : Workspace) (tree rest : FileTree) : Prop where
  kept : ∀ f ∈ rest.files skipsDirectory, f ∈ tree.files skipsDirectory
  lost : ∀ f ∈ tree.files skipsDirectory, f ∉ rest.files skipsDirectory →
    ∀ u, ctx.analyzeFile w (pathBelow ctx.base f.1) ≠ .ok u

section

variable {w : Workspace} {i : Invocation} {config : Config} {configPath : Option String}
  {place : List RawText} {entries : List (RawText × FileTree)} {exclusions : Config.Exclusions}
  {ctx : Context}

/-- The paths of the chosen files in a directory. -/
def chosenPaths (ctx : Context) (c : Config) (exclusions : Config.Exclusions)
    (entries : List (RawText × FileTree)) : List RawText :=
  (chosenFiles ctx c exclusions ctx.base (.directory entries)).map (pathBelow ctx.base)

theorem collectFiles_eq (hlocation : PathName.isAbsolute w.location = true)
    (hplace : w.root.Leads place (.directory entries))
    (hbase : ctx.base = Command.absolutePath w place)
    (hexclusions : config.exclusions = .ok exclusions) :
    collectFiles w ctx config (Command.absolutePath w place) =
      .ok (chosenPaths ctx config exclusions entries) := by
  rw [chosenPaths, hbase]
  exact collectFiles_of_resolve (Workspace.resolve_pathBelow hlocation hplace) hexclusions

/-- The answer of a scan: the reports on the chosen files, and the exit code by their counts. -/
theorem scan_eq (hformat : i.format ∈ outputFormats)
    (hconfig : Command.validConfig w i.config = .ok (config, configPath))
    (hexclusions : config.exclusions = .ok exclusions)
    (hctx : Context.ofConfig (Command.absolutePath w place) config = .ok ctx)
    (hlocation : PathName.isAbsolute w.location = true)
    (hsubject : w.resolve (Utf8.encode i.subject) = .ok (place, .directory entries))
    {units : List UnitReport}
    (hunits : ctx.analyzeFiles w (chosenPaths ctx config exclusions entries) = units) :
    Command.scan w i =
      .ok ⟨if i.failOnEmpty && decide (0 < (totalSummary units).empty) then exitFailed
        else exitSuccess, Command.reportText i configPath units⟩ := by
  have hcheck : Command.checkFormat i.format = .ok () :=
    if_pos (List.contains_iff_mem.mpr hformat)
  have hfiles : Command.scanFiles w i config =
      .ok (ctx, chosenPaths ctx config exclusions entries) := by
    simp only [Command.scanFiles, hsubject, FileTree.isDirectory, if_true, hctx,
      collectFiles_eq hlocation (Workspace.leads_of_resolve hsubject)
        (Context.base_of_ofConfig hctx) hexclusions]
    rfl
  have hreports := (Context.analyzeFilesParallel_eq w ctx _).trans hunits
  simp only [Command.scan, hcheck, hconfig, hfiles, bind, Except.bind, pure, Except.pure, hreports]

/-- **Files that cannot be judged leave no trace in the reports.** -/
theorem analyzeFiles_of_lacksOnlyFailures {w' : Workspace} {rest : List (RawText × FileTree)}
    (hlocation : PathName.isAbsolute w.location = true) (hsame : w'.location = w.location)
    (hbase : ctx.base = Command.absolutePath w place)
    (hplace : w.root.Leads place (.directory entries))
    (hplace' : w'.root.Leads place (.directory rest))
    (hentries : (FileTree.directory entries).WellNamed)
    (hrest : (FileTree.directory rest).WellNamed)
    (hlacks : LacksOnlyFailures ctx w (.directory entries) (.directory rest)) :
    ctx.analyzeFiles w' (chosenPaths ctx config exclusions rest) =
      ctx.analyzeFiles w (chosenPaths ctx config exclusions entries) := by
  rw [Context.analyzeFiles, Context.analyzeFiles, Context.sortedReports, Context.sortedReports,
    chosenPaths, chosenPaths, chosenFiles_eq_filter hentries hrest hlacks.kept]
  congr 1
  simp only [List.filterMap_map, List.filterMap_filter]
  refine List.filterMap_congr fun names hnames => ?_
  obtain ⟨f, hf, rfl⟩ := List.mem_map.mp (mem_chosenFiles_iff.mp hnames).1
  simp only [Function.comp_apply, decide_eq_true_eq]
  split
  case isTrue hkept =>
    -- The file is in both places, with the same content.
    obtain ⟨g, hg, hgf⟩ := List.mem_map.mp hkept
    have hread :=
      Context.analyzeFile_of_mem_files hlocation hplace hentries hbase (hlacks.kept g hg)
    have hbase' : ctx.base = Command.absolutePath w' place := by
      rw [hbase, Command.absolutePath, Command.absolutePath, hsame]
    have hread' := Context.analyzeFile_of_mem_files (hsame ▸ hlocation) hplace' hrest hbase' hg
    rw [← hgf, hread, hread']
  case isFalse hgone =>
    have hfail := hlacks.lost f hf fun hmem => hgone (List.mem_map_of_mem hmem)
    cases hresult : ctx.analyzeFile w (pathBelow ctx.base f.1) with
    | error failure => rfl
    | ok u => exact absurd hresult (hfail u)

end

/-- **The gate is exact.**  A scan of a directory always answers.  Told to fail on empty
declarations it exits with 1 if and only if some chosen file can be judged and has an empty
declaration at some depth, and with 0 otherwise.  The reports are those on the chosen files that can
be judged, sorted by path; and where the directory lacks some of the others, the answer is the
same. -/
theorem scan_fails_exactly_on_empty {w : Workspace} {i : Invocation} {config : Config}
    {configPath : Option String} {place : List RawText} {entries : List (RawText × FileTree)}
    (haction : i.action = .scan) (hformat : i.format ∈ outputFormats)
    (hconfig : Command.validConfig w i.config = .ok (config, configPath))
    (hlocation : PathName.isAbsolute w.location = true)
    (hsubject : w.resolve (Utf8.encode i.subject) = .ok (place, .directory entries))
    (hentries : (FileTree.directory entries).WellNamed) :
    ∃ ctx files code units,
      Context.ofConfig (Command.absolutePath w place) config = .ok ctx ∧
      collectFiles w ctx config (Command.absolutePath w place) = .ok files ∧
      Command.run w i = .ok ⟨code, Command.reportText i configPath units⟩ ∧
      (code = 1 ↔ i.failOnEmpty = true ∧ ctx.FindsEmpty w files) ∧
      (code = 0 ↔ ¬(i.failOnEmpty = true ∧ ctx.FindsEmpty w files)) ∧
      units.Perm (files.filterMap fun path => (ctx.analyzeFile w path).toOption) ∧
      (units.Pairwise fun a b => a.path ≤ b.path) ∧
      ∀ (w' : Workspace) (rest : List (RawText × FileTree)), w'.location = w.location →
        Command.validConfig w' i.config = .ok (config, configPath) →
        w'.resolve (Utf8.encode i.subject) = .ok (place, .directory rest) →
        (FileTree.directory rest).WellNamed →
        LacksOnlyFailures ctx w (.directory entries) (.directory rest) →
        Command.run w' i = Command.run w i := by
  obtain ⟨⟨languages, hlanguages⟩, exclusions, hexclusions⟩ :=
    exists_of_validate (validate_of_validConfig hconfig)
  obtain ⟨ctx, hctx⟩ :
      ∃ ctx, Context.ofConfig (Command.absolutePath w place) config = .ok ctx := by
    rw [Context.ofConfig, hlanguages]
    exact ⟨_, rfl⟩
  have hplace := Workspace.leads_of_resolve hsubject
  have hbase := Context.base_of_ofConfig hctx
  have hrun : ∀ v, Command.run v i = Command.scan v i := fun v => by rw [Command.run, haction]
  have hscan := scan_eq hformat hconfig hexclusions hctx hlocation hsubject rfl
  obtain ⟨hfailed, hsuccess⟩ := exitCode_iff Context.totalSummary_empty_pos_iff rfl
  refine ⟨ctx, chosenPaths ctx config exclusions entries, _, _, hctx,
    collectFiles_eq hlocation hplace hbase hexclusions, (hrun w).trans hscan, hfailed, hsuccess,
    Context.analyzeFiles_perm w ctx _, Context.analyzeFiles_pairwise w ctx _, ?_⟩
  intro w' rest hsame hconfig' hsubject' hrest hlacks
  have hplace' := Workspace.leads_of_resolve hsubject'
  have hctx' : Context.ofConfig (Command.absolutePath w' place) config = .ok ctx := by
    rw [Command.absolutePath, hsame]
    exact hctx
  rw [hrun, hrun, hscan]
  exact scan_eq hformat hconfig' hexclusions hctx' (hsame ▸ hlocation) hsubject'
    (analyzeFiles_of_lacksOnlyFailures hlocation hsame hbase hplace hplace' hentries hrest hlacks)

/-- The tree of a function whose body is filler. -/
def idleTree : Node :=
  .named none "module" 0 14 [.named none "function_definition" 0 13
    [.token "def" 0 3, .named "name" "identifier" 4 5 [],
      .named "parameters" "parameters" 5 7 [.token "(" 5 6, .token ")" 6 7], .token ":" 7 8,
      .named "body" "block" 9 13 [.named none "pass_statement" 9 13 [.token "pass" 9 13]]]]

/-- The directory with that function, and possibly a file without declarations. -/
def idleEntries (hasBlank : Bool) : List (RawText × FileTree) :=
  (Utf8.encode "a.py", .file ⟨Utf8.encode "def f(): pass\n", some idleTree⟩) ::
    if hasBlank then [(Utf8.encode "b.py", .file ⟨[], some (.named none "module" 0 0 [])⟩)] else []

/-- A workspace with that directory, in which declarations are required. -/
def idleWorkspace (hasBlank : Bool) : Workspace :=
  { location := Utf8.encode "/w"
    root := .directory
      [(Utf8.encode "emptycheck.yaml", .file ⟨Utf8.encode "require_declarations: true", none⟩),
        (Utf8.encode "src", .directory (idleEntries hasBlank))] }

theorem wellNamed_idleEntries (hasBlank : Bool) :
    (FileTree.directory (idleEntries hasBlank)).WellNamed := by
  have ha : IsFileName (Utf8.encode "a.py") := by constructor <;> decide
  have hb : IsFileName (Utf8.encode "b.py") := by constructor <;> decide
  cases hasBlank
  · exact .directory (by decide) (by simpa [idleEntries] using ha)
      (by simpa [idleEntries] using .file _)
  · exact .directory (by decide) (by simpa [idleEntries] using ⟨ha, hb⟩)
      (by simpa [idleEntries] using ⟨.file _, .file _⟩)

/-- The context of a scan of that directory. -/
def idleContext : Context := ⟨Utf8.encode "/w/src", .builtin, .skip, ⟨true, true⟩⟩

theorem findsEmpty_idleContext {files : List RawText} (hmem : Utf8.encode "/w/src/a.py" ∈ files) :
    idleContext.FindsEmpty (idleWorkspace true) files := by
  have hcount : (idleContext.analyzeFile (idleWorkspace true)
      (Utf8.encode "/w/src/a.py")).toOption.map (·.summary.empty) = some 1 := by
    decide +kernel
  cases hok : idleContext.analyzeFile (idleWorkspace true) (Utf8.encode "/w/src/a.py") with
  | error failure => simp [hok, Except.toOption] at hcount
  | ok u =>
    have hpos : 0 < u.summary.empty := by
      simp only [hok, Except.toOption, Option.map_some, Option.some.injEq] at hcount
      omega
    exact ⟨_, hmem, u, hok, (Context.summary_empty_pos_iff hok).mp hpos⟩

theorem lacksOnlyFailures_idleEntries : LacksOnlyFailures idleContext (idleWorkspace true)
    (.directory (idleEntries true)) (.directory (idleEntries false)) := by
  constructor
  · simp [FileTree.files, FileTree.filesIn, idleEntries, FileTree.isDirectory]
  · intro f hf hgone u hok
    have hfails : (idleContext.analyzeFile (idleWorkspace true)
        (pathBelow idleContext.base [Utf8.encode "b.py"])).toOption.isNone = true := by
      decide +kernel
    simp only [FileTree.files, FileTree.filesIn, idleEntries, FileTree.isDirectory, Bool.false_and,
      Bool.false_eq_true, if_true, if_false, List.map_cons, List.map_nil, List.cons_append,
      List.nil_append, List.mem_cons, List.not_mem_nil, or_false] at hf hgone
    obtain rfl := hf.resolve_left hgone
    simp [hok, Except.toOption] at hfails

theorem idleWorkspace_fails_on_empty :
    (∃ output, Command.run (idleWorkspace true) ⟨.scan, "src", none, "json", true, false, 0⟩ =
        .ok ⟨1, output⟩) ∧
      Command.run (idleWorkspace false) ⟨.scan, "src", none, "json", true, false, 0⟩ =
        Command.run (idleWorkspace true) ⟨.scan, "src", none, "json", true, false, 0⟩ := by
  have hconfig : ∀ b, Command.validConfig (idleWorkspace b) none =
      .ok ({ requireDeclarations := true }, some "emptycheck.yaml") := by
    decide +kernel
  have hsubject : ∀ b, (idleWorkspace b).resolve (Utf8.encode "src") =
      .ok ([Utf8.encode "src"], .directory (idleEntries b)) := by
    intro b
    cases b <;> rfl
  obtain ⟨ctx, files, code, units, hctx, hfiles, hrun, hcode, _, _, _, hrest⟩ :=
    @scan_fails_exactly_on_empty (idleWorkspace true) ⟨.scan, "src", none, "json", true, false, 0⟩
      _ _ _ _ rfl (by decide) (hconfig true) (by decide) (hsubject true)
      (wellNamed_idleEntries true)
  obtain rfl : idleContext = ctx := Except.ok.inj hctx
  have hmem : Utf8.encode "/w/src/a.py" ∈ files := by
    have hplace := Workspace.leads_of_resolve (hsubject true)
    rw [@collectFiles_eq _ _ _ _ [] _ (by decide) hplace rfl rfl] at hfiles
    obtain rfl := Except.ok.inj hfiles
    refine List.mem_map.mpr ⟨[Utf8.encode "a.py"],
      mem_chosenFiles_iff.mpr ⟨?_, by decide +kernel⟩, by decide⟩
    simp [FileTree.files, FileTree.filesIn, idleEntries, FileTree.isDirectory]
  obtain rfl : code = 1 := hcode.mpr ⟨rfl, findsEmpty_idleContext hmem⟩
  exact ⟨⟨_, hrun⟩, hrest _ _ rfl (hconfig false) (hsubject false) (wellNamed_idleEntries false)
    lacksOnlyFailures_idleEntries⟩

end Hollow
