import Hollow.Proofs.FileOrder

/-!
# Which files are chosen

A search goes down from a directory, turns back at directories that are skipped by name, and asks of
each file that it meets whether it is chosen.  What comes out is what a single question about the
names on the way to a file would give; the directory that the search starts from is no part of it.

* `components_pathBelow` — the components of a path below a directory.
* `forPath?_pathBelow` — a file has a language by its own name.
* `Context.Chosen` — the question; `mem_chosenFiles_iff_chosen` — the search answers it.
* `lt_of_chosenFiles` — the chosen files are strictly in order.
* `collectFiles_is_its_filter` — the contract of the search.
-/

namespace Hollow

/-! ## Paths of files -/

section

variable {names : List RawText}

theorem components_relativePath (hne : names ≠ []) (hnames : ∀ name ∈ names, IsFileName name) :
    PathName.components (relativePath names) = names := by
  rw [PathName.components, splitOn_relativePath hne hnames, List.filter_eq_self]
  intro name hname
  rw [(hnames name hname).isIdle, Bool.not_false]

/-- The components of a path below a directory are those of the directory and the names from
there. -/
theorem components_pathBelow (start : RawText) (hne : names ≠ [])
    (hnames : ∀ name ∈ names, IsFileName name) :
    PathName.components (pathBelow start names) = PathName.components start ++ names := by
  have hrelative := components_relativePath hne hnames
  rw [pathBelow_of_ne_nil hne]
  by_cases hstart : start = []
  · rw [hstart, PathName.join, if_pos (by simp), hrelative]
    rfl
  · rw [join_eq hstart (isAbsolute_relativePath hne hnames), PathName.components_withSlash,
      hrelative]

/-- The file name of a path below a directory is the last of the names. -/
theorem fileName_pathBelow (start : RawText) (hne : names ≠ [])
    (hnames : ∀ name ∈ names, IsFileName name) :
    PathName.fileName (pathBelow start names) = names.getLast? := by
  obtain ⟨front, last, rfl⟩ := List.eq_nil_or_concat names |>.resolve_left hne
  have hlast := (hnames last (by simp)).ne_dots
  rw [PathName.fileName, components_pathBelow start hne hnames]
  simp [hlast]

/-- The language of a file is that of its own name. -/
theorem forPath?_pathBelow (languages : LanguageSet) (start : RawText) (hne : names ≠ [])
    (hnames : ∀ name ∈ names, IsFileName name) :
    languages.forPath? (pathBelow start names) = names.getLast?.bind languages.forPath? := by
  have hown : ∀ name ∈ names.getLast?, PathName.fileName name = some name := by
    intro name hname
    have hname := hnames name (List.mem_of_getLast? hname)
    have hcomponents : PathName.components name = [name] := by
      simpa [relativePath] using @components_relativePath [name] (by simp) (by simpa using hname)
    rw [PathName.fileName, hcomponents]
    simp [hname.ne_dots]
  unfold LanguageSet.forPath? PathName.extension
  rw [fileName_pathBelow start hne hnames]
  cases hlast : names.getLast? with
  | none => rfl
  | some name => simp [hown name hlast]

end

/-! ## The question -/

/-- What a search asks of a file, by the names on the way to it: the extension of the file has a
language, no directory is hidden or holds dependencies or results of a build, the path is not
excluded, and the file is no test, should tests be left out. -/
structure Context.Chosen (ctx : Context) (c : Config) (excludes : RawText → Bool)
    (names : List RawText) : Prop where
  supported : ∃ name ext, names.getLast? = some name ∧
    PathName.extension name = some (Utf8.encode ext) ∧
    (ctx.languages.forExtension? ext).isSome = true
  directories : ∀ d ∈ names.dropLast, (Utf8.lossy d).toList.head? ≠ some '.' ∧
    Utf8.lossy d ∉ ["vendor", "node_modules", "target"]
  kept : excludes (relativePath names) = false
  noTest : c.includesTestFiles = false → isTestFile (relativePath names) = false

section

variable {ctx : Context} {c : Config} {exclusions : Config.Exclusions} {start : RawText}
  {tree : FileTree} {names : List RawText}

theorem skipsDirectory_eq_false_iff {name : RawText} :
    skipsDirectory name = false ↔ (Utf8.lossy name).toList.head? ≠ some '.' ∧
      Utf8.lossy name ∉ ["vendor", "node_modules", "target"] := by
  simp [skipsDirectory, skippedDirectories]

theorem supports_pathBelow_iff (start : RawText) (hne : names ≠ [])
    (hnames : ∀ name ∈ names, IsFileName name) :
    ctx.supports (pathBelow start names) = true ↔
      ∃ name ext, names.getLast? = some name ∧ PathName.extension name = some (Utf8.encode ext) ∧
        (ctx.languages.forExtension? ext).isSome = true := by
  rw [Context.supports, forPath?_pathBelow ctx.languages start hne hnames, Option.isSome_iff_exists]
  simp only [Option.bind_eq_some_iff, LanguageSet.forPath?, Option.isSome_iff_exists,
    Utf8.decode_eq_some_iff]
  constructor
  · rintro ⟨language, name, hname, ext, ⟨_, hext, rfl⟩, hlanguage⟩
    exact ⟨name, ext, hname, hext, language, hlanguage⟩
  · rintro ⟨name, ext, hname, hext, language, hlanguage⟩
    exact ⟨language, name, hname, ext, ⟨_, hext, rfl⟩, hlanguage⟩

/-- The walk by names and the tests on a file ask one question together. -/
theorem chosen_iff (start : RawText) (hne : names ≠ []) (hnames : ∀ name ∈ names, IsFileName name) :
    ctx.Chosen c exclusions.isMatch names ↔
      (∀ d ∈ names.dropLast, skipsDirectory d = false) ∧
        ctx.chooses c exclusions start names = true := by
  have htests : (c.includesTestFiles || !isTestFile (relativePath names)) = true ↔
      (c.includesTestFiles = false → isTestFile (relativePath names) = false) := by
    cases c.includesTestFiles <;> simp
  rw [Context.chooses, Bool.and_eq_true, Bool.and_eq_true, supports_pathBelow_iff start hne hnames,
    Bool.not_eq_true', htests]
  simp only [skipsDirectory_eq_false_iff]
  constructor
  · intro h
    exact ⟨h.directories, ⟨h.supported, h.kept⟩, h.noTest⟩
  · rintro ⟨hdirectories, ⟨hsupported, hkept⟩, hnoTest⟩
    exact ⟨hsupported, hdirectories, hkept, hnoTest⟩

/-- **The search answers the question.** -/
theorem mem_chosenFiles_iff_chosen {entries : List (RawText × FileTree)}
    (hentries : (FileTree.directory entries).WellNamed) (start : RawText) :
    names ∈ chosenFiles ctx c exclusions start (.directory entries) ↔
      (∃ content, (FileTree.directory entries).Leads names (.file content)) ∧
        ctx.Chosen c exclusions.isMatch names := by
  rw [mem_chosenFiles_iff]
  constructor
  · rintro ⟨hmem, hchosen⟩
    obtain ⟨⟨_, content⟩, hf, rfl⟩ := List.mem_map.mp hmem
    obtain ⟨hleads, hdirectories⟩ := (FileTree.mem_files_iff hentries).mp hf
    exact ⟨⟨content, hleads⟩,
      (chosen_iff start hleads.ne_nil hleads.names).mpr ⟨hdirectories, hchosen⟩⟩
  · rintro ⟨⟨content, hleads⟩, hquestion⟩
    obtain ⟨hdirectories, hchosen⟩ := (chosen_iff start hleads.ne_nil hleads.names).mp hquestion
    have hf := (FileTree.mem_files_iff hentries).mpr ⟨hleads, hdirectories⟩
    exact ⟨List.mem_map.mpr ⟨_, hf, rfl⟩, hchosen⟩

/-! ## Order -/

theorem compareComponents_append (front as bs : List RawText) :
    PathName.compareComponents (front ++ as) (front ++ bs) = PathName.compareComponents as bs := by
  induction front with
  | nil => rfl
  | cons name front ih =>
    have hself : compare name name = .eq := Std.ReflCmp.compare_self
    rw [List.cons_append, List.cons_append, PathName.compareComponents, ih, hself]
    rfl

theorem compareComponents_self (names : List RawText) :
    PathName.compareComponents names names = .eq := by
  rw [compareComponents_eq]
  exact Std.ReflCmp.compare_self

/-- The chosen files are strictly in order, by their names. -/
theorem lt_of_chosenFiles (htree : tree.WellNamed) :
    (chosenFiles ctx c exclusions start tree).Pairwise fun a b =>
      PathName.compareComponents a b = .lt := by
  refine (pairwise_chosenFiles.and (nodup_chosenFiles htree)).imp ?_
  rintro a b ⟨horder, hne⟩
  rw [fileOrder, bne_iff_ne] at horder
  cases hcompare : PathName.compareComponents a b with
  | lt => rfl
  | eq =>
    rw [compareComponents_eq] at hcompare
    exact absurd (Std.LawfulEqCmp.eq_of_compare hcompare) hne
  | gt => exact absurd hcompare horder

/-- The directory that a search starts from has no part in what it chooses. -/
theorem chosenFiles_eq_of_start {entries : List (RawText × FileTree)}
    (hentries : (FileTree.directory entries).WellNamed) (start start' : RawText) :
    chosenFiles ctx c exclusions start (.directory entries) =
      chosenFiles ctx c exclusions start' (.directory entries) := by
  refine eq_of_fileOrder pairwise_chosenFiles pairwise_chosenFiles (nodup_chosenFiles hentries)
    (nodup_chosenFiles hentries) fun names => ?_
  rw [mem_chosenFiles_iff_chosen hentries, mem_chosenFiles_iff_chosen hentries]

/-- The paths of the chosen files are strictly in order. -/
theorem lt_of_chosenPaths {entries : List (RawText × FileTree)}
    (hentries : (FileTree.directory entries).WellNamed) :
    ((chosenFiles ctx c exclusions start (.directory entries)).map (pathBelow start)).Pairwise
      fun a b =>
        PathName.compareComponents (PathName.components a) (PathName.components b) = .lt := by
  rw [List.pairwise_map]
  refine (lt_of_chosenFiles hentries).imp_of_mem fun {a b} ha hb hlt => ?_
  obtain ⟨⟨_, ha⟩, _⟩ := (mem_chosenFiles_iff_chosen hentries start).mp ha
  obtain ⟨⟨_, hb⟩, _⟩ := (mem_chosenFiles_iff_chosen hentries start).mp hb
  rw [components_pathBelow start ha.ne_nil ha.names, components_pathBelow start hb.ne_nil hb.names,
    compareComponents_append]
  exact hlt

end

/-- **A search gives the chosen files and no others.**  Provided that the patterns of the
configuration can be read, a search below a directory always gives an answer: the paths of the files
that are chosen by the names on the way to them, strictly in the order of paths by components, so
that none occurs twice.  What the directory itself is called, and where it is, makes no difference
to the names. -/
theorem collectFiles_is_its_filter {w : Workspace} {ctx : Context} {c : Config}
    {exclusions : Config.Exclusions} {start : RawText} {place : List RawText}
    {entries : List (RawText × FileTree)}
    (hstart : w.resolve start = .ok (place, .directory entries))
    (hentries : (FileTree.directory entries).WellNamed)
    (hexclusions : c.exclusions = .ok exclusions) :
    ∃ chosen : List (List RawText),
      collectFiles w ctx c start = .ok (chosen.map (pathBelow start)) ∧
      (∀ names, names ∈ chosen ↔
        (∃ content, (FileTree.directory entries).Leads names (.file content)) ∧
          ctx.Chosen c exclusions.isMatch names) ∧
      ((chosen.map (pathBelow start)).Pairwise fun a b =>
        PathName.compareComponents (PathName.components a) (PathName.components b) = .lt) ∧
      (chosen.map (pathBelow start)).Nodup ∧
      ∀ (w' : Workspace) (start' : RawText) (place' : List RawText),
        w'.resolve start' = .ok (place', .directory entries) →
        collectFiles w' ctx c start' = .ok (chosen.map (pathBelow start')) := by
  have horder := @lt_of_chosenPaths ctx c exclusions start entries hentries
  refine ⟨chosenFiles ctx c exclusions start (.directory entries),
    collectFiles_of_resolve hstart hexclusions,
    fun names => mem_chosenFiles_iff_chosen hentries start, horder, horder.imp ?_, ?_⟩
  · rintro a b hlt rfl
    rw [compareComponents_self] at hlt
    cases hlt
  · intro w' start' place' hstart'
    rw [collectFiles_of_resolve hstart' hexclusions, chosenFiles_eq_of_start hentries start start']

/-- A workspace whose only directory has the name of one that holds results of a build.  In it are a
file, a hidden file, a hidden directory, a test and a generated file. -/
def buildEntries : List (RawText × FileTree) :=
  [(Utf8.encode "b", .directory [(Utf8.encode "a.py", .file ⟨[], none⟩)]),
    (Utf8.encode ".setup.py", .file ⟨[], none⟩),
    (Utf8.encode ".git", .directory [(Utf8.encode "hook.py", .file ⟨[], none⟩)]),
    (Utf8.encode "test_b.py", .file ⟨[], none⟩), (Utf8.encode "b.gen.py", .file ⟨[], none⟩)]

@[inherit_doc buildEntries]
def buildWorkspace : Workspace :=
  { location := Utf8.encode "/w"
    root := .directory [(Utf8.encode "target", .directory buildEntries)] }

theorem wellNamed_buildEntries : (FileTree.directory buildEntries).WellNamed := by
  have hsingle : ∀ name, IsFileName name →
      (FileTree.directory [(name, .file ⟨[], none⟩)]).WellNamed := fun name hname =>
    .directory (by simp) (by simpa using hname) (by simpa using .file _)
  refine .directory (by decide) (by decide) ?_
  simp only [buildEntries, List.forall_mem_cons]
  exact ⟨hsingle _ (by decide), .file _, hsingle _ (by decide), .file _, .file _, by simp⟩

/-- A configuration that leaves out tests and generated files. -/
def strictConfig : Config := { includeTestFiles := some false, excludedPaths := ["*.gen.*"] }

theorem buildWorkspace_is_its_filter :
    ∃ chosen : List (List RawText),
      collectFiles buildWorkspace ⟨Utf8.encode "/w", .builtin, .skip, {}⟩ strictConfig
          (Utf8.encode "/w/target") =
          .ok (chosen.map (pathBelow (Utf8.encode "/w/target"))) ∧
        ["b", "a.py"].map Utf8.encode ∈ chosen ∧ [".setup.py"].map Utf8.encode ∈ chosen ∧
        [".git", "hook.py"].map Utf8.encode ∉ chosen ∧ ["test_b.py"].map Utf8.encode ∉ chosen ∧
        ["b.gen.py"].map Utf8.encode ∉ chosen := by
  have hstart : buildWorkspace.resolve (Utf8.encode "/w/target") =
      .ok ([Utf8.encode "target"], .directory buildEntries) := rfl
  obtain ⟨exclusions, hexclusions⟩ :
      ∃ exclusions, strictConfig.exclusions = .ok exclusions := ⟨_, rfl⟩
  obtain ⟨chosen, hfiles, hchosen, _⟩ := @collectFiles_is_its_filter buildWorkspace
    ⟨Utf8.encode "/w", .builtin, .skip, {}⟩ strictConfig _ _ _ _ hstart wellNamed_buildEntries
    hexclusions
  obtain rfl := Except.ok.inj hexclusions
  refine ⟨chosen, hfiles, (hchosen _).mpr ⟨⟨⟨[], none⟩, ?_⟩, ?_⟩,
    (hchosen _).mpr ⟨⟨⟨[], none⟩, ?_⟩, ?_⟩, fun hmem => ?_, fun hmem => ?_, fun hmem => ?_⟩
  · exact .enter (by decide) rfl (.enter (by decide) rfl (.here _))
  · exact ⟨⟨Utf8.encode "a.py", "py", by decide, by decide, by decide⟩, by decide,
      by decide +kernel, by decide⟩
  · exact .enter (by decide) rfl (.here _)
  · exact ⟨⟨Utf8.encode ".setup.py", "py", by decide, by decide, by decide⟩, by decide,
      by decide +kernel, by decide⟩
  · exact absurd ((hchosen _).mp hmem).2.directories (by decide)
  · exact absurd (((hchosen _).mp hmem).2.noTest rfl) (by decide)
  · exact absurd ((hchosen _).mp hmem).2.kept (by decide +kernel)

end Hollow
