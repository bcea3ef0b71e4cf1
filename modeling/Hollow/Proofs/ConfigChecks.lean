import Hollow.Proofs.FileOrder
import Hollow.Proofs.LanguageSets

/-!
# Checked configurations

A configuration is checked when it is loaded and used afterwards: its languages when a context is
made, its patterns when files are searched for.  The check and the uses go through names and
patterns each in their own way.  This file shows that they accept the same configurations, and that
they stop at the same name or pattern where they do not.  Patterns that can be read one by one make
up a set, so that nothing is left to fail behind that.

* `Config.FirstUnknown`, `Config.FirstUnreadable` — the name or the pattern to stop at.
* `Config.validate_eq_error_iff` — when the check fails, and over what;
  `Context.ofConfig_eq_error_iff`, `Config.exclusions_eq_error_iff` — the same of the uses.
* `Blameless` — a step that does not fail over names or patterns; `Command.blameless_run` — no
  command does, once its configuration is checked.
* `Config.check_agrees_with_use` — the contract of the check.
-/

namespace Hollow

/-! ## Where a search stops -/

namespace Config

variable {known names patterns : List String} {id : String} {failure : Failure}

/-- The first name that is not known. -/
def FirstUnknown (known names : List String) (id : String) : Prop :=
  ∃ front back, names = front ++ id :: back ∧ (∀ other ∈ front, other ∈ known) ∧ id ∉ known

/-- The first pattern that cannot be read, and what is wrong with it. -/
def FirstUnreadable (patterns : List String) (pattern : String) (problem : GlobProblem) : Prop :=
  ∃ front back, patterns = front ++ pattern :: back ∧
    (∀ other ∈ front, ∃ tokens, Glob.parse other = .ok tokens) ∧ Glob.parse pattern = .error problem

theorem FirstUnknown.not_known (h : FirstUnknown known names id) : ¬∀ id ∈ names, id ∈ known := by
  obtain ⟨front, back, rfl, _, hid⟩ := h
  exact fun hall => hid (hall id (by simp))

theorem find?_eq_some_iff_firstUnknown :
    (names.find? fun id => !known.contains id) = some id ↔ FirstUnknown known names id := by
  rw [List.find?_eq_some_iff_append, FirstUnknown]
  constructor
  · rintro ⟨hid, front, back, hnames, hfront⟩
    exact ⟨front, back, hnames, by simpa using hfront, by simpa using hid⟩
  · rintro ⟨front, back, hnames, hfront, hid⟩
    exact ⟨by simpa using hid, front, back, hnames, by simpa using hfront⟩

/-- What is said about a pattern that cannot be read. -/
def complaint? (pattern : String) : Option Failure :=
  match Glob.parse pattern with
  | .error problem => some (.badPattern pattern problem)
  | .ok _ => none

theorem complaint?_eq_some_iff {pattern : String} :
    complaint? pattern = some failure ↔
      ∃ problem, Glob.parse pattern = .error problem ∧ failure = .badPattern pattern problem := by
  unfold complaint?
  cases Glob.parse pattern <;> simp [eq_comm]

theorem complaint?_eq_none_iff {pattern : String} :
    complaint? pattern = none ↔ ∃ tokens, Glob.parse pattern = .ok tokens := by
  unfold complaint?
  cases Glob.parse pattern <;> simp

theorem findSome?_complaint?_iff :
    patterns.findSome? complaint? = some failure ↔
      ∃ pattern problem, FirstUnreadable patterns pattern problem ∧
        failure = .badPattern pattern problem := by
  simp only [List.findSome?_eq_some_iff, complaint?_eq_some_iff, complaint?_eq_none_iff]
  constructor
  · rintro ⟨front, pattern, back, hpatterns, ⟨problem, hparse, hfailure⟩, hfront⟩
    exact ⟨pattern, problem, ⟨front, back, hpatterns, hfront, hparse⟩, hfailure⟩
  · rintro ⟨pattern, problem, ⟨front, back, hpatterns, hfront, hparse⟩, hfailure⟩
    exact ⟨front, pattern, back, hpatterns, ⟨problem, hparse, hfailure⟩, hfront⟩

/-- Reading patterns into a set stops where a search for complaints stops. -/
theorem readPatterns_eq_error_iff :
    readPatterns patterns = .error failure ↔ patterns.findSome? complaint? = some failure := by
  induction patterns with
  | nil => simp [readPatterns]
  | cons pattern rest ih =>
    rw [List.findSome?_cons, complaint?, readPatterns]
    cases Glob.parse pattern with
    | error problem => simp
    | ok tokens =>
      rw [← ih]
      cases readPatterns rest <;> simp [Except.map]

end Config

/-! ## The check and the uses -/

theorem LanguageSet.restrict_eq_error_iff {s : LanguageSet} {names : List String} {id : String} :
    s.restrict names = .error id ↔ Config.FirstUnknown s.ids names id := by
  rw [← Config.find?_eq_some_iff_firstUnknown, restrict]
  split
  · -- No names are exempt from the search, which finds nothing among them either.
    rename_i hnil
    rw [List.isEmpty_iff.mp hnil]
    simp
  · cases names.find? fun id => !s.ids.contains id <;> simp

theorem Context.ofConfig_eq_error_iff {base : RawText} {c : Config} {failure : Failure} :
    Context.ofConfig base c = .error failure ↔
      ∃ id, Config.FirstUnknown LanguageSet.builtin.ids c.languages id ∧
        failure = .unknownLanguage id LanguageSet.builtin.ids := by
  simp only [← LanguageSet.restrict_eq_error_iff]
  unfold ofConfig
  cases LanguageSet.builtin.restrict c.languages <;> simp [eq_comm]

theorem Context.exists_ofConfig {c : Config}
    (h : ∀ id ∈ c.languages, id ∈ LanguageSet.builtin.ids) (base : RawText) :
    ∃ ctx, Context.ofConfig base c = .ok ctx := by
  cases hctx : Context.ofConfig base c with
  | ok ctx => exact ⟨ctx, rfl⟩
  | error failure =>
    obtain ⟨id, hid, _⟩ := ofConfig_eq_error_iff.mp hctx
    exact absurd h hid.not_known

namespace Config

variable {c : Config} {known : List String} {failure : Failure}

theorem exclusions_eq_error_iff :
    c.exclusions = .error failure ↔
      ∃ pattern problem, FirstUnreadable c.excludedPaths pattern problem ∧
        failure = .badPattern pattern problem := by
  rw [exclusions, readPatterns_eq_error_iff, findSome?_complaint?_iff]

/-- **The check** stops at the first unknown name, and where there is none it fails as reading the
patterns does. -/
theorem validate_eq_error_iff :
    c.validate known = .error failure ↔
      (∃ id, FirstUnknown known c.languages id ∧ failure = .unknownConfigLanguage id known) ∨
        (∀ id ∈ c.languages, id ∈ known) ∧ c.exclusions = .error failure := by
  have hpatterns : c.exclusions = .error failure ↔
      c.excludedPaths.findSome? complaint? = some failure := readPatterns_eq_error_iff
  simp only [hpatterns, ← find?_eq_some_iff_firstUnknown]
  unfold validate
  split
  · rename_i id hfind
    have hunknown := (find?_eq_some_iff_firstUnknown.mp hfind).not_known
    rw [hfind]
    simp [hunknown, eq_comm]
  · rename_i hfind
    have hknown : ∀ id ∈ c.languages, id ∈ known := by simpa using hfind
    rw [hfind, and_iff_right hknown]
    split
    · rename_i found hfound
      have hfirst : c.excludedPaths.findSome? complaint? = some found := hfound
      simp [hfirst]
    · rename_i hfound
      have hnone : c.excludedPaths.findSome? complaint? = none := hfound
      simp [hnone]

theorem validate_eq_error_iff_of_known (h : ∀ id ∈ c.languages, id ∈ known) :
    c.validate known = .error failure ↔ c.exclusions = .error failure := by
  rw [validate_eq_error_iff, and_iff_right h, or_iff_right]
  rintro ⟨id, hid, _⟩
  exact hid.not_known h

/-- **The check accepts what can be used.** -/
theorem validate_eq_ok_iff (base : RawText) :
    c.validate LanguageSet.builtin.ids = .ok () ↔
      (∃ ctx, Context.ofConfig base c = .ok ctx) ∧ ∃ exclusions, c.exclusions = .ok exclusions := by
  constructor
  · intro h
    obtain ⟨⟨languages, hlanguages⟩, hexclusions⟩ := exists_of_validate h
    refine ⟨?_, hexclusions⟩
    exact Context.exists_ofConfig (LanguageSet.restrict_eq_ok_iff.mp hlanguages).1 base
  · rintro ⟨⟨ctx, hctx⟩, exclusions, hexclusions⟩
    cases hvalidate : c.validate LanguageSet.builtin.ids with
    | ok _ => rfl
    | error failure =>
      obtain ⟨id, hid, _⟩ | ⟨_, herror⟩ := validate_eq_error_iff.mp hvalidate
      · rw [Context.ofConfig_eq_error_iff.mpr ⟨id, hid, rfl⟩] at hctx
        cases hctx
      · rw [herror] at hexclusions
        cases hexclusions

end Config

/-- The failure of a use, where a check failed before it: a name that the check does not know is
missing from the set of languages, and about a pattern both say the same. -/
def Failure.inUse : Failure → Failure
  | .unknownConfigLanguage id known => .unknownLanguage id known
  | failure => failure

/-- **What the check refuses cannot be used**: it is the languages that fail, for every context, or
else the patterns. -/
theorem Config.fails_of_validate {c : Config} {failure : Failure}
    (h : c.validate LanguageSet.builtin.ids = .error failure) :
    (∀ base, Context.ofConfig base c = .error failure.inUse) ∨
      (∀ base, ∃ ctx, Context.ofConfig base c = .ok ctx) ∧
        c.exclusions = .error failure.inUse := by
  obtain ⟨id, hid, rfl⟩ | ⟨hknown, herror⟩ := validate_eq_error_iff.mp h
  · exact .inl fun base => Context.ofConfig_eq_error_iff.mpr ⟨id, hid, rfl⟩
  · obtain ⟨pattern, problem, _, rfl⟩ := exclusions_eq_error_iff.mp herror
    exact .inr ⟨Context.exists_ofConfig hknown, herror⟩

/-! ## Commands -/

/-- Whether a failure blames a configuration for the name of a language or for a pattern. -/
def Failure.blamesConfig : Failure → Bool
  | .unknownLanguage _ _ | .unknownConfigLanguage _ _ | .badPattern _ _ => true
  | _ => false

theorem Config.blamesConfig_of_validate {c : Config} {known : List String} {failure : Failure}
    (h : c.validate known = .error failure) : failure.blamesConfig = true := by
  obtain ⟨id, _, rfl⟩ | ⟨_, herror⟩ := validate_eq_error_iff.mp h
  · rfl
  · obtain ⟨pattern, problem, _, rfl⟩ := exclusions_eq_error_iff.mp herror
    rfl

/-- A step that does not fail over names of languages or patterns. -/
def Blameless {α : Type} (step : Except Failure α) : Prop :=
  ∀ failure, step = .error failure → failure.blamesConfig = false

section

variable {α β ε : Type} {step : Except Failure α}

theorem blameless_of_ok {a : α} (h : step = .ok a) : Blameless step := by
  intro failure hfailure
  rw [h] at hfailure
  cases hfailure

theorem blameless_error {failure : Failure} (h : failure.blamesConfig = false) :
    Blameless (.error failure : Except Failure α) := by
  rintro _ ⟨⟩
  exact h

theorem blameless_mapError {result : Except ε α} {word : ε → Failure}
    (h : ∀ e, (word e).blamesConfig = false) : Blameless (result.mapError word) := by
  intro failure hfailure
  obtain ⟨e, _, rfl⟩ := exists_error_of_mapError hfailure
  exact h e

/-- One step after the other. -/
theorem Blameless.bind {next : α → Except Failure β} (h : Blameless step)
    (hnext : ∀ a, step = .ok a → Blameless (next a)) : Blameless (step >>= next) := by
  cases step with
  | error failure => exact blameless_error (h failure rfl)
  | ok a => exact hnext a rfl

end

theorem blameless_readNumber (value : Nat) (cs : List Char) : Blameless (readNumber value cs) := by
  induction cs generalizing value with
  | nil => exact blameless_of_ok rfl
  | cons c cs ih =>
    rw [readNumber]
    split
    · exact blameless_error rfl
    · simp only
      split
      · exact blameless_error rfl
      · exact ih _

theorem Target.blameless_parse (arg : String) : Blameless (Target.parse arg) := by
  unfold parse
  split
  · exact blameless_error rfl
  · split
    · rename_i hline
      exact blameless_error (blameless_readNumber _ _ _ hline)
    · split
      · rename_i hcol
        exact blameless_error (blameless_readNumber _ _ _ hcol)
      · split
        · exact blameless_error rfl
        · exact blameless_of_ok rfl

theorem Context.blameless_analyzeFile (ctx : Context) (w : Workspace) (path : RawText) :
    Blameless (ctx.analyzeFile w path) := by
  intro failure hfailure
  cases hindered_of_analyzeFile hfailure <;> rfl

namespace Command

variable {w : Workspace} {i : Invocation} {c : Config} {path : Option String}

theorem blameless_checkFormat (format : String) : Blameless (checkFormat format) := by
  unfold checkFormat
  split
  · exact blameless_of_ok rfl
  · exact blameless_error rfl

/-- Choosing files uses both languages and patterns, and a checked configuration allows it. -/
theorem blameless_scanFiles (h : c.validate LanguageSet.builtin.ids = .ok ()) :
    Blameless (scanFiles w i c) := by
  unfold scanFiles
  split
  · exact blameless_error rfl
  · rename_i place tree _
    simp only
    obtain ⟨⟨ctx, hctx⟩, exclusions, hexclusions⟩ := (Config.validate_eq_ok_iff _).mp h
    rw [hctx]
    simp only
    split
    · simp only [collectFiles, collectBelow, hexclusions]
      split
      · exact blameless_error rfl
      · exact blameless_of_ok rfl
    · exact blameless_of_ok rfl

theorem blameless_scan (hconfig : validConfig w i.config = .ok (c, path)) :
    Blameless (scan w i) := by
  have hvalid := validate_of_validConfig hconfig
  refine (blameless_checkFormat _).bind fun _ _ => ?_
  refine (blameless_of_ok hconfig).bind fun loaded hloaded => ?_
  obtain rfl := Except.ok.inj (hconfig.symm.trans hloaded)
  exact (blameless_scanFiles hvalid).bind fun _ _ => blameless_of_ok rfl

/-- A position is looked up with the languages alone. -/
theorem blameless_locate (hconfig : validConfig w i.config = .ok (c, path)) :
    Blameless (locate w i) := by
  have hvalid := validate_of_validConfig hconfig
  obtain ⟨⟨ctx, hctx⟩, _⟩ := (Config.validate_eq_ok_iff [PathName.dot]).mp hvalid
  refine (blameless_checkFormat _).bind fun _ _ => ?_
  refine (Target.blameless_parse _).bind fun target _ => ?_
  refine (blameless_of_ok hconfig).bind fun loaded hloaded => ?_
  obtain rfl := Except.ok.inj (hconfig.symm.trans hloaded)
  refine (blameless_of_ok hctx).bind fun ctx _ => ?_
  exact (ctx.blameless_analyzeFile w _).bind fun _ _ => blameless_of_ok rfl

/-- A tree needs neither languages nor patterns. -/
theorem blameless_judgeTree (hconfig : validConfig w i.config = .ok (c, path)) :
    Blameless (judgeTree w i) := by
  refine (blameless_checkFormat _).bind fun _ _ => ?_
  refine (blameless_of_ok hconfig).bind fun _ _ => ?_
  refine (blameless_mapError fun _ => rfl).bind fun _ _ => ?_
  refine (blameless_mapError fun _ => rfl).bind fun _ _ => ?_
  exact (blameless_mapError fun _ => rfl).bind fun _ _ => blameless_of_ok rfl

/-- **Once its configuration is checked, no command fails over names or patterns.** -/
theorem blameless_run (hconfig : validConfig w i.config = .ok (c, path)) : Blameless (run w i) := by
  unfold run
  split
  · exact blameless_scan hconfig
  · exact blameless_locate hconfig
  · exact blameless_judgeTree hconfig

theorem validConfig_of_loadConfig {explicit : Option String}
    (h : loadConfig w explicit = .ok (c, path)) :
    validConfig w explicit = (c.validate LanguageSet.builtin.ids).map fun _ => (c, path) := by
  rw [validConfig, h]
  change (c.validate LanguageSet.builtin.ids >>= fun _ => _) = _
  cases c.validate LanguageSet.builtin.ids <;> rfl

/-- A scan of a directory that went on with a refused configuration would fail over the same name
or pattern. -/
theorem scanFiles_of_refused {failure : Failure} {place : List RawText}
    {entries : List (RawText × FileTree)}
    (h : c.validate LanguageSet.builtin.ids = .error failure)
    (hsubject : w.resolve (Utf8.encode i.subject) = .ok (place, .directory entries)) :
    scanFiles w i c = .error failure.inUse := by
  rw [scanFiles, hsubject]
  simp only [FileTree.isDirectory, if_true]
  obtain hlanguages | ⟨hlanguages, hpatterns⟩ := Config.fails_of_validate h
  · rw [hlanguages]
  · obtain ⟨ctx, hctx⟩ := hlanguages (absolutePath w place)
    rw [hctx]
    simp only [collectFiles, collectBelow, hpatterns]
    rfl

end Command

/-- **The check of a configuration agrees with its use.**  The check accepts a configuration if and
only if a context can be made from it and its patterns can be read.

So no command fails over a name or a pattern of a configuration that was accepted when it was
loaded.  One that is refused could not have been used: it is the languages that fail, for every
context, or else the patterns, over the name or the pattern that it is refused for; and a scan of a
directory that went on with it would fail there.

Where all names are known, the check and the reading of the patterns fail alike: over the first
pattern that cannot be read, and with the same complaint. -/
theorem Config.check_agrees_with_use (c : Config) :
    (∀ base, c.validate LanguageSet.builtin.ids = .ok () ↔
      (∃ ctx, Context.ofConfig base c = .ok ctx) ∧
        ∃ exclusions, c.exclusions = .ok exclusions) ∧
    (∀ w i path, Command.loadConfig w i.config = .ok (c, path) →
      (Command.validConfig w i.config = .ok (c, path) →
        ∀ failure, Command.run w i = .error failure → failure.blamesConfig = false) ∧
      ∀ failure, Command.validConfig w i.config = .error failure →
        failure.blamesConfig = true ∧
        ((∀ base, Context.ofConfig base c = .error failure.inUse) ∨
          (∀ base, ∃ ctx, Context.ofConfig base c = .ok ctx) ∧
            c.exclusions = .error failure.inUse) ∧
        ∀ place entries, w.resolve (Utf8.encode i.subject) = .ok (place, .directory entries) →
          Command.scanFiles w i c = .error failure.inUse) ∧
    ((∀ id ∈ c.languages, id ∈ LanguageSet.builtin.ids) → ∀ failure,
      (c.validate LanguageSet.builtin.ids = .error failure ↔ c.exclusions = .error failure) ∧
      (c.exclusions = .error failure ↔
        ∃ pattern problem, FirstUnreadable c.excludedPaths pattern problem ∧
          failure = .badPattern pattern problem)) := by
  refine ⟨validate_eq_ok_iff, fun w i path hload => ⟨Command.blameless_run, ?_⟩, ?_⟩
  · intro failure hfailure
    rw [Command.validConfig_of_loadConfig hload] at hfailure
    have hrefused : c.validate LanguageSet.builtin.ids = .error failure := by
      cases hvalidate : c.validate LanguageSet.builtin.ids with
      | ok _ => simp [hvalidate, Except.map] at hfailure
      | error failure' => simpa [hvalidate, Except.map] using hfailure
    exact ⟨blamesConfig_of_validate hrefused, fails_of_validate hrefused,
      fun place entries hsubject => Command.scanFiles_of_refused hrefused hsubject⟩
  · intro hknown failure
    exact ⟨validate_eq_error_iff_of_known hknown, exclusions_eq_error_iff⟩

/-- A workspace with a configuration that asks for one language and leaves out paths. -/
def excludingWorkspace (patterns : String) : Workspace :=
  { location := Utf8.encode "/w"
    root := .directory [(Utf8.encode "emptycheck.yaml",
        .file ⟨Utf8.encode ("languages: [java]\nexcluded_paths: " ++ patterns), none⟩),
      (Utf8.encode "src", .directory [(Utf8.encode "a.py", .file ⟨[], none⟩)])] }

/-- The configuration of such a workspace. -/
def excludingConfig (patterns : List String) : Config :=
  { languages := ["java"], excludedPaths := patterns }

theorem excludingWorkspace_checked_as_used :
    (∃ failure, Command.run (excludingWorkspace "['gen/**']")
        ⟨.at, "src/a.py:1:1", none, "pretty", false, false, 0⟩ = .error failure ∧
      failure.blamesConfig = false) ∧
    Command.validConfig (excludingWorkspace "['gen/**', 'a/[', '[z-a]']") none =
        .error (.badPattern "a/[" .unclosedClass) ∧
      Command.scanFiles (excludingWorkspace "['gen/**', 'a/[', '[z-a]']")
          ⟨.scan, "src", none, "pretty", false, false, 0⟩
          (excludingConfig ["gen/**", "a/[", "[z-a]"]) =
        .error (.badPattern "a/[" .unclosedClass) := by
  constructor
  · have hload : Command.loadConfig (excludingWorkspace "['gen/**']") none =
        .ok (excludingConfig ["gen/**"], some "emptycheck.yaml") := by
      decide +kernel
    have hvalid : Command.validConfig (excludingWorkspace "['gen/**']") none =
        .ok (excludingConfig ["gen/**"], some "emptycheck.yaml") := by
      rw [Command.validConfig_of_loadConfig hload]
      rfl
    have hrun : Command.run (excludingWorkspace "['gen/**']")
        ⟨.at, "src/a.py:1:1", none, "pretty", false, false, 0⟩ =
          .error (.noLanguage (Utf8.encode "src/a.py")) := by
      decide +kernel
    obtain ⟨_, hcommands, _⟩ := Config.check_agrees_with_use (excludingConfig ["gen/**"])
    obtain ⟨haccepted, _⟩ := hcommands (excludingWorkspace "['gen/**']")
      ⟨.at, "src/a.py:1:1", none, "pretty", false, false, 0⟩ (some "emptycheck.yaml") hload
    exact ⟨_, hrun, haccepted hvalid _ hrun⟩
  · have hload : Command.loadConfig (excludingWorkspace "['gen/**', 'a/[', '[z-a]']") none =
        .ok (excludingConfig ["gen/**", "a/[", "[z-a]"], some "emptycheck.yaml") := by
      decide +kernel
    have hfirst : Config.FirstUnreadable ["gen/**", "a/[", "[z-a]"] "a/[" .unclosedClass :=
      ⟨["gen/**"], ["[z-a]"], rfl, by simpa using ⟨_, rfl⟩, rfl⟩
    obtain ⟨_, hcommands, hpatterns⟩ :=
      Config.check_agrees_with_use (excludingConfig ["gen/**", "a/[", "[z-a]"])
    obtain ⟨hcheck, huse⟩ := hpatterns (by decide) (.badPattern "a/[" .unclosedClass)
    have hrefused := hcheck.mpr (huse.mpr ⟨_, _, hfirst, rfl⟩)
    have hinvalid : Command.validConfig (excludingWorkspace "['gen/**', 'a/[', '[z-a]']") none =
        .error (.badPattern "a/[" .unclosedClass) := by
      rw [Command.validConfig_of_loadConfig hload, hrefused]
      rfl
    obtain ⟨_, _, hscan⟩ := (hcommands (excludingWorkspace "['gen/**', 'a/[', '[z-a]']")
      ⟨.scan, "src", none, "pretty", false, false, 0⟩ (some "emptycheck.yaml") hload).2 _ hinvalid
    exact ⟨hinvalid, hscan [Utf8.encode "src"] _ rfl⟩

end Hollow
