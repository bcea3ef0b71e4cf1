import Hollow.Collect
import Hollow.Proofs.Utf8Texts

/-!
# Places of files

A path is followed segment by segment, upwards too, and ends at a place: the names on the direct
way from the root.  The path that is put together from these names leads to the same place, and
what is listed below a directory is found at the path that the listing gives it.

* `splitOn_relativePath` — names joined by slashes are taken apart again;
* `IsFileName`, `FileTree.WellNamed` — what names are, and trees in which every name is one and
  stands for one thing;
* `FileTree.Leads` — a way down by names; `FileTree.leads_of_resolve`, `FileTree.resolve_of_leads`
  — following a path is going such a way;
* `FileTree.mem_files_iff` — so is listing files, but for directories that are skipped;
* `Workspace.resolve_pathBelow`, `Workspace.read_of_mem_files` — the same for absolute paths.
-/

namespace Hollow

open PathName (slash dot withSlash)

/-! ## Names -/

/-- A name that a file or a directory can have. -/
structure IsFileName (name : RawText) : Prop where
  ne_nil : name ≠ []
  ne_dot : name ≠ [dot]
  ne_dots : name ≠ [dot, dot]
  slash : slash ∉ name

instance (name : RawText) : Decidable (IsFileName name) :=
  decidable_of_iff (name ≠ [] ∧ name ≠ [dot] ∧ name ≠ [dot, dot] ∧ PathName.slash ∉ name)
    ⟨fun h => ⟨h.1, h.2.1, h.2.2.1, h.2.2.2⟩, fun h => ⟨h.ne_nil, h.ne_dot, h.ne_dots, h.slash⟩⟩

theorem IsFileName.isIdle {name : RawText} (h : IsFileName name) :
    PathName.isIdle name = false := by
  simp [PathName.isIdle, h.ne_nil, h.ne_dot]

theorem relativePath_append {names more : List RawText} (hnames : names ≠ []) (hmore : more ≠ []) :
    relativePath (names ++ more) = relativePath names ++ slash :: relativePath more := by
  unfold relativePath
  induction names with
  | nil => exact absurd rfl hnames
  | cons name names ih =>
    rw [List.cons_append, List.intercalate_cons_of_ne_nil (by simp [hmore])]
    by_cases hrest : names = []
    · simp [hrest]
    · rw [ih hrest, List.intercalate_cons_of_ne_nil hrest]
      simp

theorem splitOn_relativePath {names : List RawText} (hne : names ≠ [])
    (h : ∀ name ∈ names, IsFileName name) : (relativePath names).splitOn slash = names :=
  List.splitOn_intercalate slash (fun name hname => (h name hname).slash) hne

/-- A path made of names begins with none of them empty. -/
theorem head?_relativePath {names : List RawText} (hne : names ≠ [])
    (h : ∀ name ∈ names, IsFileName name) :
    ∃ b bs, relativePath names = b :: bs ∧ b ≠ slash := by
  obtain ⟨name, rest, rfl⟩ := List.exists_cons_of_ne_nil hne
  have hname := h name List.mem_cons_self
  obtain ⟨b, bs, rfl⟩ := List.exists_cons_of_ne_nil hname.ne_nil
  have hb : b ≠ slash := by
    rintro rfl
    exact hname.slash List.mem_cons_self
  unfold relativePath
  cases rest with
  | nil => exact ⟨b, bs, by simp, hb⟩
  | cons next rest => exact ⟨b, _, by rw [List.intercalate_cons_cons]; rfl, hb⟩

theorem isAbsolute_relativePath {names : List RawText} (hne : names ≠ [])
    (h : ∀ name ∈ names, IsFileName name) : PathName.isAbsolute (relativePath names) = false := by
  obtain ⟨b, bs, hbs, hb⟩ := head?_relativePath hne h
  simpa [PathName.isAbsolute, hbs] using hb

/-! ## Ways down -/

namespace FileTree

/-- The names lead from a tree down to something in it. -/
inductive Leads : FileTree → List RawText → FileTree → Prop
  | here (tree : FileTree) : Leads tree [] tree
  | enter {entries : List (RawText × FileTree)} {name : RawText} {next target : FileTree}
      {names : List RawText} : IsFileName name → entries.lookup name = some next →
      Leads next names target → Leads (.directory entries) (name :: names) target

theorem Leads.names {tree target : FileTree} {names : List RawText} (h : Leads tree names target) :
    ∀ name ∈ names, IsFileName name := by
  induction h with
  | here => simp
  | enter hname _ _ ih => exact List.forall_mem_cons.mpr ⟨hname, ih⟩

theorem Leads.trans {tree middle target : FileTree} {names more : List RawText}
    (h : Leads tree names middle) (hmore : Leads middle more target) :
    Leads tree (names ++ more) target := by
  induction h with
  | here => exact hmore
  | enter hname hlookup _ ih => exact .enter hname hlookup (ih hmore)

theorem resolveFrom_of_leads {tree target : FileTree} {names : List RawText}
    (h : Leads tree names target) (above : List (RawText × FileTree)) :
    resolveFrom above tree names = .ok ((above.map (·.1)).reverse ++ names, target) := by
  induction h generalizing above with
  | here => simp [resolveFrom]
  | enter hname hlookup _ ih =>
    simp only [resolveFrom, hname.isIdle, Bool.false_eq_true, if_false, if_neg hname.ne_dots,
      hlookup]
    rw [ih]
    simp

/-- Going down a way is following its names. -/
theorem resolve_of_leads {tree target : FileTree} {names : List RawText}
    (h : Leads tree names target) : tree.resolve names = .ok (names, target) :=
  resolveFrom_of_leads h []

/-- The directories above a place, nearest first, with the names that were entered from them. -/
inductive Above (root : FileTree) : List (RawText × FileTree) → FileTree → Prop
  | root : Above root [] root
  | enter {above : List (RawText × FileTree)} {entries : List (RawText × FileTree)} {name : RawText}
      {next : FileTree} : Above root above (.directory entries) → IsFileName name →
      entries.lookup name = some next → Above root ((name, .directory entries) :: above) next

theorem leads_of_above {root current : FileTree} {above : List (RawText × FileTree)}
    (h : Above root above current) : Leads root (above.map (·.1)).reverse current := by
  induction h with
  | root => exact .here root
  | enter _ hname hlookup ih =>
    rw [List.map_cons, List.reverse_cons]
    exact ih.trans (.enter hname hlookup (.here _))

theorem leads_of_resolveFrom {root current target : FileTree} {above : List (RawText × FileTree)}
    {segments place : List RawText} (habove : Above root above current)
    (hsegments : ∀ s ∈ segments, slash ∉ s)
    (h : resolveFrom above current segments = .ok (place, target)) : Leads root place target := by
  -- One segment at a time; what is above a place is put together again on the way up.
  induction segments generalizing above current with
  | nil =>
    obtain ⟨rfl, rfl⟩ : _ = place ∧ current = target := by simpa [resolveFrom] using h
    exact leads_of_above habove
  | cons segment rest ih =>
    rw [List.forall_mem_cons] at hsegments
    cases current with
    | file content => simp [resolveFrom] at h
    | directory entries =>
      unfold resolveFrom at h
      simp only at h
      split at h
      case isTrue => exact ih habove hsegments.2 h
      case isFalse hidle =>
        rw [PathName.isIdle, Bool.or_eq_true, beq_iff_eq, beq_iff_eq, not_or] at hidle
        split at h
        case isTrue =>
          cases habove with
          | root => cases h
          | enter hup _ _ => exact ih hup hsegments.2 h
        case isFalse hdots =>
          split at h
          · cases h
          · rename_i next hlookup
            have hname : IsFileName segment := ⟨hidle.1, hidle.2, hdots, hsegments.1⟩
            exact ih (.enter habove hname hlookup) hsegments.2 h

/-- **A followed path ends at a place**: the names there lead to what was found. -/
theorem leads_of_resolve {root target : FileTree} {segments place : List RawText}
    (hsegments : ∀ s ∈ segments, slash ∉ s)
    (h : root.resolve segments = .ok (place, target)) : Leads root place target :=
  leads_of_resolveFrom .root hsegments h

/-! ## Listed files -/

/-- Every name is one that a file can have, and no two entries of a directory share it. -/
inductive WellNamed : FileTree → Prop
  | file (content : FileContent) : WellNamed (.file content)
  | directory {entries : List (RawText × FileTree)} : (entries.map (·.1)).Nodup →
      (∀ e ∈ entries, IsFileName e.1) → (∀ e ∈ entries, WellNamed e.2) →
      WellNamed (.directory entries)

theorem mem_filesIn_iff {skips : RawText → Bool} {entries : List (RawText × FileTree)}
    {f : List RawText × FileContent} :
    f ∈ filesIn skips entries ↔ ∃ e ∈ entries, (e.2.isDirectory && skips e.1) = false ∧
      ∃ g ∈ e.2.files skips, f = (e.1 :: g.1, g.2) := by
  induction entries with
  | nil => simp [filesIn]
  | cons e entries ih =>
    obtain ⟨name, tree⟩ := e
    rw [filesIn, List.mem_append, ih]
    simp only [List.mem_cons, or_and_right, exists_or, exists_eq_left]
    refine or_congr_left ?_
    cases hskip : tree.isDirectory && skips name
    · simp [eq_comm]
    · simp

theorem lookup_of_mem {entries : List (RawText × FileTree)} (hnodup : (entries.map (·.1)).Nodup)
    {e : RawText × FileTree} (he : e ∈ entries) : entries.lookup e.1 = some e.2 := by
  induction entries with
  | nil => cases he
  | cons head entries ih =>
    rw [List.map_cons, List.nodup_cons] at hnodup
    rcases List.mem_cons.mp he with rfl | he
    · exact List.lookup_cons_self
    · have hne : (e.1 == head.1) = false := by
        rw [beq_eq_false_iff_ne]
        intro heq
        exact hnodup.1 (heq ▸ List.mem_map_of_mem he)
      rw [List.lookup_cons, hne]
      exact ih hnodup.2 he

/-- On a way to a file all names but the last are those of directories. -/
theorem Leads.isDirectory {tree : FileTree} {names : List RawText} {content : FileContent}
    (h : Leads tree names (.file content)) : tree.isDirectory = !names.isEmpty := by
  cases h with
  | here => rfl
  | enter => rfl

theorem Leads.ne_nil {entries : List (RawText × FileTree)} {names : List RawText}
    {content : FileContent} (h : Leads (.directory entries) names (.file content)) :
    names ≠ [] := by
  rintro rfl
  cases h

theorem forall_mem_dropLast_cons {skips : RawText → Bool} {name : RawText} {names : List RawText} :
    (∀ n ∈ (name :: names).dropLast, skips n = false) ↔
      (!names.isEmpty && skips name) = false ∧ ∀ n ∈ names.dropLast, skips n = false := by
  cases names with
  | nil => simp
  | cons next names => simp

/-- **A file is listed exactly when no directory on the way to it is skipped.** -/
theorem mem_files_iff {tree : FileTree} (h : tree.WellNamed) {skips : RawText → Bool}
    {names : List RawText} {content : FileContent} :
    (names, content) ∈ tree.files skips ↔
      tree.Leads names (.file content) ∧ ∀ name ∈ names.dropLast, skips name = false := by
  induction h generalizing names with
  | file other =>
    rw [files, List.mem_singleton, Prod.mk.injEq]
    constructor
    · rintro ⟨rfl, rfl⟩
      exact ⟨.here _, by simp⟩
    · rintro ⟨hleads, _⟩
      cases hleads
      exact ⟨rfl, rfl⟩
  | @directory entries hnodup hnames _ ih =>
    rw [files, mem_filesIn_iff]
    constructor
    · rintro ⟨e, he, hskip, g, hg, heq⟩
      obtain ⟨rfl, rfl⟩ := Prod.mk.inj heq
      obtain ⟨hleads, hdirectories⟩ := (ih e he).mp hg
      rw [hleads.isDirectory] at hskip
      exact ⟨.enter (hnames e he) (lookup_of_mem hnodup he) hleads,
        forall_mem_dropLast_cons.mpr ⟨hskip, hdirectories⟩⟩
    · rintro ⟨hleads, hdirectories⟩
      cases hleads with
      | @enter _ name next _ rest _ hlookup hnext =>
        have he : (name, next) ∈ entries := by
          obtain ⟨front, back, rfl, _⟩ := List.lookup_eq_some_iff.mp hlookup
          simp
        obtain ⟨hskip, hrest⟩ := forall_mem_dropLast_cons.mp hdirectories
        rw [← hnext.isDirectory] at hskip
        exact ⟨(name, next), he, hskip, (rest, content), (ih _ he).mpr ⟨hnext, hrest⟩, rfl⟩

/-- A listed file is where the listing says. -/
theorem leads_of_mem_files {skips : RawText → Bool} {tree : FileTree} (h : tree.WellNamed)
    {f : List RawText × FileContent} (hf : f ∈ tree.files skips) : Leads tree f.1 (.file f.2) :=
  ((mem_files_iff h).mp hf).1

theorem nodup_filesIn {skips : RawText → Bool} {entries : List (RawText × FileTree)}
    (hnodup : (entries.map (·.1)).Nodup)
    (h : ∀ e ∈ entries, ((e.2.files skips).map (·.1)).Nodup) :
    ((filesIn skips entries).map (·.1)).Nodup := by
  induction entries with
  | nil => exact List.nodup_nil
  | cons e entries ih =>
    obtain ⟨name, tree⟩ := e
    rw [List.map_cons, List.nodup_cons] at hnodup
    rw [List.forall_mem_cons] at h
    rw [filesIn, List.map_append, List.nodup_append]
    refine ⟨?_, ih hnodup.2 h.2, ?_⟩
    · split
      · exact List.nodup_nil
      · have hmap : ((files skips tree).map fun f => (name :: f.1, f.2)).map (·.1) =
            ((files skips tree).map (·.1)).map (name :: ·) := by
          simp [Function.comp_def]
        rw [hmap, List.Nodup, List.pairwise_map]
        exact h.1.imp fun hne heq => hne (List.cons.inj heq).2
    · -- The names in front tell the files of different entries apart.
      intro a ha b hb heq
      obtain ⟨f, hf, rfl⟩ := List.mem_map.mp ha
      obtain ⟨g, hg, rfl⟩ := List.mem_map.mp hb
      obtain ⟨e, he, _, _, _, rfl⟩ := mem_filesIn_iff.mp hg
      split at hf
      · cases hf
      · obtain ⟨_, _, rfl⟩ := List.mem_map.mp hf
        have hmem : e.1 ∈ entries.map (·.1) := List.mem_map_of_mem he
        rw [← (List.cons.inj heq).1] at hmem
        exact hnodup.1 hmem

/-- No two listed files have the same place. -/
theorem nodup_files {tree : FileTree} (h : tree.WellNamed) (skips : RawText → Bool) :
    ((tree.files skips).map (·.1)).Nodup := by
  induction h with
  | file content => simp [files]
  | directory hnodup _ _ ih =>
    rw [files]
    exact nodup_filesIn hnodup ih

theorem ne_nil_of_mem_filesIn {skips : RawText → Bool} {entries : List (RawText × FileTree)}
    {f : List RawText × FileContent} (hf : f ∈ filesIn skips entries) : f.1 ≠ [] := by
  obtain ⟨e, _, _, g, _, rfl⟩ := mem_filesIn_iff.mp hf
  exact List.cons_ne_nil _ _

end FileTree

/-! ## Absolute paths -/

theorem join_eq {directory path : RawText} (hdirectory : directory ≠ [])
    (hpath : PathName.isAbsolute path = false) :
    PathName.join directory path = withSlash directory ++ path := by
  rw [PathName.join, if_neg]
  simp [hpath, hdirectory]

theorem join_of_isAbsolute {directory path : RawText} (h : PathName.isAbsolute path = true) :
    PathName.join directory path = path := by
  rw [PathName.join, h, Bool.true_or, if_pos rfl]

theorem ne_nil_of_isAbsolute {path : RawText} (h : PathName.isAbsolute path = true) :
    path ≠ [] := by
  rintro rfl
  simp [PathName.isAbsolute] at h

theorem withSlash_eq_append (directory : RawText) :
    ∃ more, withSlash directory = directory ++ more := by
  rw [withSlash]
  split
  · exact ⟨[], by simp⟩
  · exact ⟨[slash], rfl⟩

theorem isAbsolute_append {path : RawText} (h : PathName.isAbsolute path = true) (more : RawText) :
    PathName.isAbsolute (path ++ more) = true := by
  rw [PathName.isAbsolute, beq_iff_eq] at h ⊢
  rw [List.head?_append, h, Option.some_or]

section

variable {start : RawText} {names : List RawText}

theorem pathBelow_of_ne_nil (hne : names ≠ []) :
    pathBelow start names = PathName.join start (relativePath names) :=
  if_neg (by simpa using hne)

theorem pathBelow_eq (hstart : PathName.isAbsolute start = true) (hne : names ≠ [])
    (hnames : ∀ name ∈ names, IsFileName name) :
    pathBelow start names = withSlash start ++ relativePath names := by
  rw [pathBelow_of_ne_nil hne,
    join_eq (ne_nil_of_isAbsolute hstart) (isAbsolute_relativePath hne hnames)]

theorem isAbsolute_pathBelow (hstart : PathName.isAbsolute start = true)
    (hnames : ∀ name ∈ names, IsFileName name) :
    PathName.isAbsolute (pathBelow start names) = true := by
  by_cases hne : names = []
  · simpa [pathBelow, hne] using hstart
  · obtain ⟨more, hmore⟩ := withSlash_eq_append start
    rw [pathBelow_eq hstart hne hnames, hmore, List.append_assoc]
    exact isAbsolute_append hstart _

/-- A path made of names does not end with a slash. -/
theorem getLast?_pathBelow (hstart : PathName.isAbsolute start = true) (hne : names ≠ [])
    (hnames : ∀ name ∈ names, IsFileName name) :
    (pathBelow start names).getLast? ≠ some slash := by
  obtain ⟨front, last, rfl⟩ := List.eq_nil_or_concat names |>.resolve_left hne
  have hlast := hnames last (by simp)
  obtain ⟨before, hbefore⟩ : ∃ before, pathBelow start (front.concat last) = before ++ last := by
    rw [pathBelow_eq hstart hne hnames, List.concat_eq_append]
    by_cases hfront : front = []
    · exact ⟨withSlash start, by simp [hfront, relativePath]⟩
    · refine ⟨withSlash start ++ (relativePath front ++ [slash]), ?_⟩
      rw [relativePath_append hfront (by simp)]
      simp [relativePath]
  rw [hbefore, List.getLast?_append, List.getLast?_eq_some_getLast hlast.ne_nil, Option.some_or,
    ← List.getLast?_eq_some_getLast hlast.ne_nil]
  intro hslash
  exact hlast.slash (List.mem_of_getLast? hslash)

/-- Going on below a place. -/
theorem join_pathBelow (hstart : PathName.isAbsolute start = true)
    (hnames : ∀ name ∈ names, IsFileName name) {more : List RawText} (hne : more ≠ [])
    (hmore : ∀ name ∈ more, IsFileName name) :
    PathName.join (pathBelow start names) (relativePath more) =
      pathBelow start (names ++ more) := by
  by_cases hnil : names = []
  · subst hnil
    rw [List.nil_append, pathBelow_of_ne_nil hne]
    rfl
  · have hplace := isAbsolute_pathBelow hstart hnames
    have hall : ∀ name ∈ names ++ more, IsFileName name :=
      List.forall_mem_append.mpr ⟨hnames, hmore⟩
    rw [pathBelow_eq hstart (by simp [hnil]) hall,
      join_eq (ne_nil_of_isAbsolute hplace) (isAbsolute_relativePath hne hmore), withSlash,
      if_neg (getLast?_pathBelow hstart hnil hnames), pathBelow_eq hstart hnil hnames,
      relativePath_append hnil hne]
    simp

end

namespace Workspace

variable {w : Workspace}

theorem segments_pathBelow (hlocation : PathName.isAbsolute w.location = true)
    {names : List RawText} (hnames : ∀ name ∈ names, IsFileName name) :
    w.segments (pathBelow w.location names) = some names := by
  by_cases hne : names = []
  · subst hne
    simp [segments, pathBelow]
  · obtain ⟨b, bs, hbs, -⟩ := head?_relativePath hne hnames
    obtain ⟨more, hmore⟩ := withSlash_eq_append w.location
    have hpath := pathBelow_eq hlocation hne hnames
    have hlonger : pathBelow w.location names ≠ w.location := by
      rw [hpath, hmore, hbs]
      simp
    have hinside : (withSlash w.location).isPrefixOf (pathBelow w.location names) = true := by
      rw [hpath, List.isPrefixOf_iff_prefix]
      exact List.prefix_append _ _
    simp only [segments, if_neg hlonger, hinside, if_true]
    rw [hpath, List.drop_left, splitOn_relativePath hne hnames]

theorem slash_not_mem_of_segments {path : RawText} {segments : List RawText}
    (h : w.segments path = some segments) : ∀ s ∈ segments, slash ∉ s := by
  simp only [Workspace.segments] at h
  split at h
  · obtain rfl := Option.some.inj h
    simp
  · split at h
    · obtain rfl := Option.some.inj h
      exact not_mem_of_mem_splitOn
    · split at h
      · cases h
      · obtain rfl := Option.some.inj h
        exact not_mem_of_mem_splitOn

/-- Whatever the path, what it leads to is found by its place. -/
theorem leads_of_resolve {path : RawText} {place : List RawText} {target : FileTree}
    (h : w.resolve path = .ok (place, target)) : w.root.Leads place target := by
  rw [resolve] at h
  split at h
  · cases h
  · rename_i segments hsegments
    exact FileTree.leads_of_resolve (slash_not_mem_of_segments hsegments) h

theorem resolve_pathBelow (hlocation : PathName.isAbsolute w.location = true)
    {names : List RawText} {target : FileTree} (h : w.root.Leads names target) :
    w.resolve (pathBelow w.location names) = .ok (names, target) := by
  rw [resolve, segments_pathBelow hlocation h.names]
  exact FileTree.resolve_of_leads h

/-- **A listed file is read at the path that the listing gives it.** -/
theorem read_of_mem_files (hlocation : PathName.isAbsolute w.location = true)
    {place : List RawText} {tree : FileTree} (hplace : w.root.Leads place tree)
    (htree : tree.WellNamed) {skips : RawText → Bool} {f : List RawText × FileContent}
    (hf : f ∈ tree.files skips) :
    w.read (pathBelow w.location (place ++ f.1)) = .ok f.2 := by
  have hfile := hplace.trans (FileTree.leads_of_mem_files htree hf)
  rw [read, resolve_pathBelow hlocation hfile]

end Workspace

end Hollow
