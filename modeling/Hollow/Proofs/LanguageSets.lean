import Hollow.Language
import Hollow.Proofs.Membership
import Mathlib.Data.List.Nodup

/-!
# Sets of languages

A set of languages is restricted by names, and which language reads a file is asked in two steps:
one table leads from extensions to names, and the set leads from names to languages.  Each language
has a list of extensions of its own besides.  This file shows that the tables agree, and that a
restricted set answers as the whole set does, or not at all.

* `lookup_extensionTable_iff`, `mem_extensionTable_iff` — the table of extensions, and that it
  agrees with the lists of the languages.
* `LanguageSet.restrict_eq_ok_iff` — which names are accepted, and what is kept.
* `LanguageSet.forExtension?_kept`, `LanguageSet.forPath?_kept` — what a restricted set answers.
* `LanguageSet.IsPart.forExtension?_eq_some_iff`, `LanguageSet.mem_extensions_iff` — which
  languages and extensions belong together.
* `LanguageSet.restrict_is_filter` — the contract of restricted sets.
-/

namespace Hollow

/-- Sorting by a text puts the elements in the order of their texts. -/
theorem pairwise_mergeSort_le {α : Type} (key : α → String) (l : List α) :
    (l.mergeSort fun a b => decide (key a ≤ key b)).Pairwise fun a b => key a ≤ key b := by
  have hsorted : (l.mergeSort fun a b => decide (key a ≤ key b)).Pairwise
      fun a b => decide (key a ≤ key b) = true := by
    refine List.pairwise_mergeSort (fun a b c hab hbc => ?_) (fun a b => ?_) l
    · rw [decide_eq_true_eq] at hab hbc ⊢
      exact String.le_trans hab hbc
    · simpa using String.le_total (key a) (key b)
  exact hsorted.imp of_decide_eq_true

/-! ## Tables -/

theorem asciiLower_of_mem_extensionTable :
    ∀ entry ∈ extensionTable, asciiLower entry.1 = entry.1 := by decide

theorem nodup_extensionTable : (extensionTable.map (·.1)).Nodup := by decide

theorem nodup_builtinLanguages : (builtinLanguages.map (·.id)).Nodup := by decide

/-- The table says what it holds. -/
theorem lookup_extensionTable_iff {ext id : String} :
    extensionTable.lookup ext = some id ↔ (ext, id) ∈ extensionTable := by
  have hlookup : ∀ entry ∈ extensionTable, extensionTable.lookup entry.1 = some entry.2 := by
    decide
  constructor
  · intro h
    obtain ⟨front, back, hsplit, _⟩ := List.lookup_eq_some_iff.mp h
    simp [hsplit]
  · exact hlookup (ext, id)

/-- **The tables agree**: an extension leads to a language if and only if it is written for it. -/
theorem mem_extensionTable_iff {l : Language} (hl : l ∈ builtinLanguages) {ext : String} :
    (ext, l.id) ∈ extensionTable ↔ l.handlesExtension ext = true := by
  have hlisted : ∀ entry ∈ extensionTable, ∀ l ∈ builtinLanguages, l.id = entry.2 →
      l.handlesExtension entry.1 = true := by decide
  have hentered : ∀ l ∈ builtinLanguages, ∀ ext ∈ l.extensions, (ext, l.id) ∈ extensionTable := by
    decide
  constructor
  · intro h
    exact hlisted _ h l hl rfl
  · intro h
    exact hentered l hl ext (List.contains_iff_mem.mp h)

namespace LanguageSet

variable {s t : LanguageSet} {names : List String} {ext : String} {l : Language}

/-! ## Restricted sets -/

/-- Whether a language stays when a set is restricted to names. -/
def keeps (names : List String) (l : Language) : Bool := names.isEmpty || names.contains l.id

/-- The languages of a set that have one of the names, or all of them if there is no name. -/
def kept (s : LanguageSet) (names : List String) : LanguageSet :=
  ⟨s.languages.filter (keeps names)⟩

theorem keeps_of_ne_nil (h : names ≠ []) : keeps names = fun l => names.contains l.id := by
  funext l
  simp [keeps, h]

/-- Neither the order nor the repetition of the names matters. -/
theorem keeps_congr {names' : List String} (h : ∀ id, id ∈ names' ↔ id ∈ names) :
    keeps names' = keeps names := by
  funext l
  rw [Bool.eq_iff_iff]
  simp [keeps, List.eq_nil_iff_forall_not_mem, h]

theorem kept_nil (s : LanguageSet) : s.kept [] = s := by
  have hall : s.languages.filter (keeps []) = s.languages :=
    List.filter_eq_self.mpr fun _ _ => rfl
  rw [kept, hall]

/-- **Restricting a set** succeeds if every name is in it, and keeps what is named. -/
theorem restrict_eq_ok_iff :
    s.restrict names = .ok t ↔ (∀ id ∈ names, id ∈ s.ids) ∧ t = s.kept names := by
  unfold restrict
  split
  · rename_i hnil
    rw [List.isEmpty_iff.mp hnil, kept_nil]
    simp [eq_comm]
  · rename_i hcons
    rw [kept, keeps_of_ne_nil (by simpa using hcons)]
    cases hfind : names.find? fun id => !s.ids.contains id with
    | some id =>
      have hmissing : ¬∀ id ∈ names, id ∈ s.ids := by
        intro h
        have hid := List.find?_some hfind
        simp [h id (List.mem_of_find?_eq_some hfind)] at hid
      simp [hmissing]
    | none =>
      have hpresent : ∀ id ∈ names, id ∈ s.ids := by simpa using hfind
      simp only [Except.ok.injEq, and_iff_right hpresent, eq_comm]

theorem ids_kept (s : LanguageSet) (names : List String) :
    (s.kept names).ids = if names = [] then s.ids else s.ids.filter (names.contains ·) := by
  split
  · rename_i hnil
    rw [hnil, kept_nil]
  · rename_i hcons
    rw [ids, kept, keeps_of_ne_nil hcons, ids, List.filter_map]
    rfl

theorem id_of_byId? {id : String} (h : s.byId? id = some l) : l.id = id :=
  beq_iff_eq.mp (List.find?_some (p := fun l : Language => l.id == id) h)

/-- A kept language is found as before, and one that is left out is not found. -/
theorem byId?_kept (s : LanguageSet) (names : List String) (id : String) :
    (s.kept names).byId? id = (s.byId? id).filter (keeps names) := by
  -- Whether a language stays depends on its identifier alone, here on `id`.
  obtain ⟨stays, hstays⟩ : ∃ stays, ∀ l : Language, l.id = id → keeps names l = stays :=
    ⟨names.isEmpty || names.contains id, fun l hl => by rw [keeps, hl]⟩
  have hfilter : (s.byId? id).filter (keeps names) = if stays then s.byId? id else none := by
    cases hfind : s.byId? id with
    | none => simp
    | some l => rw [Option.filter_some, hstays l (id_of_byId? hfind)]
  rw [hfilter, byId?, kept, List.find?_filter]
  cases stays with
  | true =>
    change _ = s.languages.find? (·.id == id)
    congr 1
    funext l
    by_cases hl : l.id = id <;> simp [hl, hstays]
  | false =>
    refine List.find?_eq_none.mpr fun l _ => ?_
    by_cases hl : l.id = id <;> simp [hl, hstays]

theorem forExtension?_kept (s : LanguageSet) (names : List String) (ext : String) :
    (s.kept names).forExtension? ext = (s.forExtension? ext).filter (keeps names) := by
  unfold forExtension?
  cases extensionTable.lookup (asciiLower ext) with
  | none => rfl
  | some id => exact s.byId?_kept names id

theorem forPath?_kept (s : LanguageSet) (names : List String) (path : RawText) :
    (s.kept names).forPath? path = (s.forPath? path).filter (keeps names) := by
  unfold forPath?
  cases (PathName.extension path).bind Utf8.decode with
  | none => rfl
  | some ext => exact s.forExtension?_kept names ext

/-! ## Extensions -/

/-- The languages of the set come with the program, and stand in its order. -/
def IsPart (s : LanguageSet) : Prop := s.languages.Sublist builtinLanguages

theorem isPart_kept (names : List String) : (builtin.kept names).IsPart := List.filter_sublist

theorem IsPart.byId?_eq_some_iff (hs : s.IsPart) {id : String} :
    s.byId? id = some l ↔ l ∈ s.languages ∧ l.id = id := by
  have hnodup : (s.languages.map (·.id)).Nodup := (hs.map _).nodup nodup_builtinLanguages
  have hunique : ∀ a ∈ s.languages, ∀ b ∈ s.languages, (a.id == id) = true →
      (b.id == id) = true → a = b := by
    intro a ha b hb hida hidb
    rw [beq_iff_eq] at hida hidb
    exact List.inj_on_of_nodup_map hnodup ha hb (hida.trans hidb.symm)
  rw [byId?, find?_eq_some_iff_of_unique hunique, beq_iff_eq]

/-- **Which language reads an extension**: the one in the set that is written for it, in any letter
case. -/
theorem IsPart.forExtension?_eq_some_iff (hs : s.IsPart) :
    s.forExtension? ext = some l ↔
      l ∈ s.languages ∧ l.handlesExtension (asciiLower ext) = true := by
  rw [forExtension?, Option.bind_eq_some_iff]
  simp only [lookup_extensionTable_iff, hs.byId?_eq_some_iff]
  constructor
  · rintro ⟨id, hentry, hl, rfl⟩
    exact ⟨hl, (mem_extensionTable_iff (hs.subset hl)).mp hentry⟩
  · rintro ⟨hl, hhandles⟩
    exact ⟨l.id, (mem_extensionTable_iff (hs.subset hl)).mpr hhandles, hl, rfl⟩

/-- The extensions of a set are strictly in order, whatever the order of the table. -/
theorem pairwise_extensions (s : LanguageSet) : s.extensions.Pairwise (· < ·) := by
  have hnodup : s.extensions.Nodup :=
    (List.mergeSort_perm _ _).nodup_iff.mpr
      (nodup_extensionTable.sublist (List.filter_sublist.map _))
  have hsorted : s.extensions.Pairwise (· ≤ ·) := pairwise_mergeSort_le id _
  exact (hsorted.and hnodup).imp fun ⟨hle, hne⟩ =>
    String.not_le.mp fun hge => hne (String.le_antisymm hle hge)

/-- **The extensions of a set** are those in lower case for which it has a language. -/
theorem mem_extensions_iff :
    ext ∈ s.extensions ↔ asciiLower ext = ext ∧ (s.forExtension? ext).isSome = true := by
  simp only [extensions, List.mem_mergeSort, List.mem_map, List.mem_filter, forExtension?]
  constructor
  · rintro ⟨⟨ext, id⟩, ⟨hentry, hid⟩, rfl⟩
    have hlower := asciiLower_of_mem_extensionTable _ hentry
    refine ⟨hlower, ?_⟩
    rw [hlower, lookup_extensionTable_iff.mpr hentry]
    exact hid
  · rintro ⟨hlower, hsome⟩
    rw [hlower] at hsome
    cases hlookup : extensionTable.lookup ext with
    | none => simp [hlookup] at hsome
    | some id =>
      rw [hlookup] at hsome
      exact ⟨(ext, id), ⟨lookup_extensionTable_iff.mp hlookup, hsome⟩, rfl⟩

/-- **Restricting languages is a filter.**  The set of all languages can be restricted to names if
and only if each of them is the name of a language.  What remains are the languages with these
names, in the order of all languages whatever the order and the repetition of the names, and no
names leave all.  The restricted set has for a path the language that all have for it, if that one
is named.  It has a language for an extension exactly if one of its languages is written for the
extension in lower case, and then it is that one.  And it lists, in strict order, the extensions in
lower case that it has a language for. -/
theorem restrict_is_filter (names : List String) :
    ((∃ s, builtin.restrict names = .ok s) ↔ ∀ id ∈ names, ∃ l ∈ builtinLanguages, l.id = id) ∧
      ∀ s, builtin.restrict names = .ok s →
        s.ids = (if names = [] then builtin.ids else builtin.ids.filter (names.contains ·)) ∧
        (∀ names', (∀ id, id ∈ names' ↔ id ∈ names) → builtin.restrict names' = .ok s) ∧
        (∀ path, s.forPath? path =
          (builtin.forPath? path).filter fun l => names.isEmpty || names.contains l.id) ∧
        (∀ ext l, s.forExtension? ext = some l ↔
          l ∈ s.languages ∧ l.handlesExtension (asciiLower ext) = true) ∧
        s.extensions.Pairwise (· < ·) ∧
        ∀ ext, ext ∈ s.extensions ↔
          asciiLower ext = ext ∧ (s.forExtension? ext).isSome = true := by
  have hids : ∀ id, id ∈ builtin.ids ↔ ∃ l ∈ builtinLanguages, l.id = id :=
    fun id => List.mem_map
  simp only [restrict_eq_ok_iff, hids]
  refine ⟨⟨fun ⟨_, h, _⟩ => h, fun h => ⟨_, h, rfl⟩⟩, ?_⟩
  rintro s ⟨hnames, rfl⟩
  refine ⟨builtin.ids_kept names, ?_, builtin.forPath?_kept names,
    fun ext l => (isPart_kept names).forExtension?_eq_some_iff, pairwise_extensions _,
    fun ext => mem_extensions_iff⟩
  intro names' hsame
  refine ⟨fun id hid => hnames id ((hsame id).mp hid), ?_⟩
  rw [kept, kept, keeps_congr hsame]

theorem namedTwice_is_filtered :
    ∃ s, builtin.restrict ["python", "java", "python"] = .ok s ∧ s.ids = ["java", "python"] ∧
      s.forPath? (Utf8.encode "src/Main.go") = none ∧
      (s.forPath? (Utf8.encode "src/Main.JAVA")).map (·.id) = some "java" ∧
      "PYI" ∉ s.extensions := by
  obtain ⟨hrestrict, hset⟩ := restrict_is_filter ["python", "java", "python"]
  obtain ⟨s, hs⟩ := hrestrict.mpr (by decide)
  obtain ⟨hids, _, hpath, _, _, hextensions⟩ := hset s hs
  refine ⟨s, hs, hids, ?_, ?_, ?_⟩
  · rw [hpath]
    rfl
  · rw [hpath]
    rfl
  · rw [hextensions]
    exact fun h => absurd h.1 (by decide)

end LanguageSet

end Hollow
