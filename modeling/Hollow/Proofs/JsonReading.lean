import Hollow.Json.Reader
import Hollow.Proofs.JsonTexts

/-!
# Reading what was written

A writer turns data into a JSON value and a reader turns the value back, as long as the value does
not nest deeper than the reader has room for.  This file says so for the readers that others are
put together from; what is left for a type of data is to name its fields.

* `ReadsBack` — a reader gives back a datum from what a writer makes of it, which is a plain value;
* `depth_array_le_iff`, `depth_object_le_iff`, `soundFields_of_plain` — nesting and soundness of a
  container, in terms of what it holds;
* `Slots` — the fields of a record in order, some of them left out; `Slots.Hold` says what a reader
  of the record finds;
* `ReadsBack.required`, `ReadsBack.orElse`, `ReadsBack.optional` — single fields;
* `ReadsBack.listOf`, `ReadsBack.ofRecord`, `ReadsBack.ofTagged` — lists, records, tagged objects;
* `ReadsBack.decode` — from the datum to the text and back.
-/

namespace Hollow.Json

/-- The reader gives the datum back from the value that is written for it, wherever this comes
from and however much room there is beyond its nesting. -/
structure ReadsBack {α : Type} (read : Reader α) (write : α → Value) (a : α) : Prop where
  plain : (write a).Plain
  reads : ∀ source room, (write a).depth ≤ room → read source room (write a) = .ok a

/-! ## Nesting and soundness -/

theorem depthElements_le_iff {vs : List Value} {n : Nat} :
    Value.depthElements vs ≤ n ↔ ∀ v ∈ vs, v.depth ≤ n := by
  induction vs with
  | nil => simp [Value.depthElements]
  | cons v vs ih => rw [Value.depthElements, Nat.max_le, ih, List.forall_mem_cons]

theorem depthFields_le_iff {fs : Fields} {n : Nat} :
    Value.depthFields fs ≤ n ↔ ∀ f ∈ fs, f.2.depth ≤ n := by
  induction fs with
  | nil => simp [Value.depthFields]
  | cons f fs ih =>
    obtain ⟨k, v⟩ := f
    rw [Value.depthFields, Nat.max_le, ih, List.forall_mem_cons]

theorem depth_array_le_iff {vs : List Value} {room : Nat} :
    (Value.array vs).depth ≤ room ↔ ∃ r, room = r + 1 ∧ ∀ v ∈ vs, v.depth ≤ r := by
  rw [Value.depth]
  constructor
  · intro h
    obtain ⟨r, rfl⟩ := Nat.exists_eq_add_of_le' (Nat.le_trans (Nat.le_add_left 1 _) h)
    exact ⟨r, rfl, depthElements_le_iff.mp (Nat.le_of_succ_le_succ h)⟩
  · rintro ⟨r, rfl, h⟩
    exact Nat.succ_le_succ (depthElements_le_iff.mpr h)

theorem depth_object_le_iff {fs : Fields} {room : Nat} :
    (Value.object fs).depth ≤ room ↔ ∃ r, room = r + 1 ∧ ∀ f ∈ fs, f.2.depth ≤ r := by
  rw [Value.depth]
  constructor
  · intro h
    obtain ⟨r, rfl⟩ := Nat.exists_eq_add_of_le' (Nat.le_trans (Nat.le_add_left 1 _) h)
    exact ⟨r, rfl, depthFields_le_iff.mp (Nat.le_of_succ_le_succ h)⟩
  · rintro ⟨r, rfl, h⟩
    exact Nat.succ_le_succ (depthFields_le_iff.mpr h)

theorem soundElements_iff {vs : List Value} :
    Value.soundElements vs = true ↔ ∀ v ∈ vs, v.isSound = true := by
  induction vs with
  | nil => simp [Value.soundElements]
  | cons v vs ih => rw [Value.soundElements, Bool.and_eq_true, ih, List.forall_mem_cons]

theorem soundFields_iff {fs : Fields} :
    Value.soundFields fs = true ↔ ∀ f ∈ fs, f.2.isSound = true := by
  induction fs with
  | nil => simp [Value.soundFields]
  | cons f fs ih =>
    obtain ⟨k, v⟩ := f
    rw [Value.soundFields, Bool.and_eq_true, ih, List.forall_mem_cons]

theorem isSound_of_plain {v : Value} (h : v.Plain) : v.isSound = true := by
  induction h with
  | null => rfl
  | bool b => rfl
  | natural hn => rfl
  | string s => rfl
  | array _ ih => rw [Value.isSound, soundElements_iff]; exact ih
  | object _ ih => rw [Value.isSound, soundFields_iff]; exact ih

theorem soundFields_of_plain {fs : Fields} (h : ∀ f ∈ fs, f.2.Plain) :
    Value.soundFields fs = true := by
  rw [soundFields_iff]
  intro f hf
  exact isSound_of_plain (h f hf)

/-! ## Scalars -/

theorem ReadsBack.natural {n bound : Nat} (hbound : bound ≤ UInt64.size) (hn : n < bound) :
    ReadsBack (naturalBelow bound) Value.natural n where
  plain := by
    have hlimit : UInt64.size ≤ doubleLimit := by decide +kernel
    exact .natural (by omega)
  reads source room _ := by simp [naturalBelow, hn]

theorem ReadsBack.text (s : String) : ReadsBack Json.text Value.string s :=
  ⟨.string s, fun _ _ _ => rfl⟩

theorem ReadsBack.flag (b : Bool) : ReadsBack Json.flag Value.bool b :=
  ⟨.bool b, fun _ _ _ => rfl⟩

/-! ## Fields -/

/-- The fields of a record in order, each with its value unless it is left out. -/
abbrev Slots := List (String × Option Value)

namespace Slots

/-- The fields that are not left out. -/
def filled (slots : Slots) : Fields := slots.filterMap fun s => s.2.map (s.1, ·)

/-- The fields hold what the slots say, and nest no deeper than there is room. -/
structure Hold (slots : Slots) (room : Nat) (fields : Fields) : Prop where
  lookup : ∀ {name : String} {o : Option Value}, slots.lookup name = some o →
    fields.lookup name = o
  depth : ∀ {name : String} {v : Value}, fields.lookup name = some v → v.depth ≤ room

variable {slots : Slots}

theorem names_filled (slots : Slots) :
    (slots.filled.map (·.1)).Sublist (slots.map (·.1)) := by
  induction slots with
  | nil => exact List.Sublist.refl _
  | cons s slots ih =>
    obtain ⟨name, o⟩ := s
    cases o with
    | none => exact ih.cons _
    | some v => exact ih.cons_cons _

theorem mem_filled_iff {f : String × Value} : f ∈ slots.filled ↔ (f.1, some f.2) ∈ slots := by
  obtain ⟨name, v⟩ := f
  simp only [filled, List.mem_filterMap, Option.map_eq_some_iff, Prod.mk.injEq]
  constructor
  · rintro ⟨⟨name', o⟩, hs, v', ho, rfl, rfl⟩
    rwa [← ho]
  · intro hs
    exact ⟨_, hs, v, rfl, rfl, rfl⟩

theorem depth_lt {n : Nat} (h : (Value.object slots.filled).depth ≤ n) (name : String) {v : Value}
    (hv : (name, some v) ∈ slots) : v.depth < n := by
  obtain ⟨r, rfl, hr⟩ := depth_object_le_iff.mp h
  exact Nat.lt_succ_of_le (hr (name, v) (mem_filled_iff.mpr hv))

/-- An element of a list in a field stands two levels down. -/
theorem depth_element {n : Nat} (h : (Value.object slots.filled).depth ≤ n) (name : String)
    {vs : List Value} (hvs : (name, some (Value.array vs)) ∈ slots) {v : Value} (hv : v ∈ vs) :
    v.depth + 2 ≤ n := by
  have hlist := depth_lt h name hvs
  obtain ⟨r, hr, hdepth⟩ := depth_array_le_iff.mp (Nat.le_refl (Value.array vs).depth)
  have := hdepth v hv
  omega

theorem lookup_filled (hnodup : (slots.map (·.1)).Nodup) {name : String} {o : Option Value}
    (h : slots.lookup name = some o) : slots.filled.lookup name = o := by
  induction slots with
  | nil => cases h
  | cons s slots ih =>
    obtain ⟨key, o'⟩ := s
    rw [List.map_cons, List.nodup_cons] at hnodup
    by_cases hkey : name = key
    · subst hkey
      obtain rfl : o' = o := by simpa [List.lookup_cons_self] using h
      cases o' with
      | some v => simp [filled]
      | none =>
        -- The field is left out here, and no other field has its name.
        have hnone : (filled slots).lookup name = none := by
          rw [List.lookup_eq_none_iff]
          intro f hf
          have hmem := (names_filled slots).subset (List.mem_map_of_mem hf)
          rw [bne_iff_ne]
          rintro rfl
          exact hnodup.1 hmem
        simpa [filled] using hnone
    · have hbeq : (name == key) = false := by simpa using hkey
      rw [List.lookup_cons, hbeq] at h
      have hrest := ih hnodup.2 h
      cases o' with
      | none => simpa [filled] using hrest
      | some v => simpa [filled, List.lookup_cons, hbeq] using hrest

theorem hold_filled (hnodup : (slots.map (·.1)).Nodup) {room : Nat}
    (hroom : ∀ f ∈ slots.filled, f.2.depth ≤ room) : slots.Hold room slots.filled where
  lookup := lookup_filled hnodup
  depth h := by
    obtain ⟨front, back, hsplit, _⟩ := List.lookup_eq_some_iff.mp h
    exact hroom _ (hsplit ▸ List.mem_append_right _ List.mem_cons_self)

end Slots

section

variable {α : Type} {slots : Slots} {room : Nat} {fields : Fields} {read : Reader α}
  {write : α → Value}

theorem ReadsBack.required {a : α} (h : ReadsBack read write a) (name : String)
    (hhold : slots.Hold room fields)
    (hslot : slots.lookup name = some (some (write a))) (source : Source) :
    Json.required fields name (read source room) = .ok a := by
  have hlookup := hhold.lookup hslot
  rw [Json.required, hlookup]
  exact h.reads source room (hhold.depth hlookup)

/-- A field that is left out when it holds what is fallen back on. -/
theorem ReadsBack.orElse {a fallback : α} (h : ReadsBack read write a) (name : String)
    (hhold : slots.Hold room fields) {o : Option Value} (hslot : slots.lookup name = some o)
    (ho : o = some (write a) ∨ (o = none ∧ a = fallback)) (source : Source) :
    Json.orElse fields name fallback (read source room) = .ok a := by
  have hlookup := hhold.lookup hslot
  rw [Json.orElse, hlookup]
  rcases ho with rfl | ⟨rfl, rfl⟩
  · exact h.reads source room (hhold.depth hlookup)
  · rfl

/-- A field that is left out when it has no value. -/
theorem ReadsBack.optional {o : Option α} (h : ∀ a ∈ o, ReadsBack read write a) (name : String)
    (hhold : slots.Hold room fields) (hslot : slots.lookup name = some (o.map write))
    (hnull : ∀ a ∈ o, write a ≠ .null) (source : Source) :
    Json.orElse fields name none (Json.optional read source room) = .ok o := by
  have hlookup := hhold.lookup hslot
  rw [Json.orElse, hlookup]
  cases o with
  | none => rfl
  | some a =>
    have hread := (h a rfl).reads source room (hhold.depth hlookup)
    simp only [Option.map_some]
    rw [Json.optional, hread]
    · rfl
    · exact hnull a rfl

end

/-! ## Containers -/

section

variable {α : Type}

theorem readAll_map {read : Value → Except Problem α} {write : α → Value} {as : List α}
    (h : ∀ a ∈ as, read (write a) = .ok a) : readAll read (as.map write) = .ok as := by
  induction as with
  | nil => rfl
  | cons a as ih =>
    rw [List.forall_mem_cons] at h
    rw [List.map_cons, readAll, h.1, ih h.2]
    rfl

/-- **Lists are read back** when their elements are. -/
theorem ReadsBack.listOf {read : Reader α} {write : α → Value} {as : List α}
    (h : ∀ a ∈ as, ReadsBack read write a) :
    ReadsBack (Json.listOf read) (fun as => .array (as.map write)) as where
  plain := by
    refine .array fun v hv => ?_
    obtain ⟨a, ha, rfl⟩ := List.mem_map.mp hv
    exact (h a ha).plain
  reads source room hroom := by
    obtain ⟨r, rfl, hr⟩ := depth_array_le_iff.mp hroom
    have hread : ∀ a ∈ as, read source r (write a) = .ok a := by
      intro a ha
      exact (h a ha).reads source r (hr _ (List.mem_map_of_mem ha))
    exact readAll_map hread

theorem record_object {names : List String} {build : Source → Nat → Fields → Except Problem α}
    {fields : Fields} (hnames : names.Nodup) (hsub : (fields.map (·.1)).Sublist names)
    (source : Source) (room : Nat) :
    record names build source (room + 1) (.object fields) = build source room fields := by
  have hknown : (fields.filter fun f => names.contains f.1) = fields := by
    rw [List.filter_eq_self]
    intro f hf
    rw [List.contains_iff_mem]
    exact hsub.subset (List.mem_map_of_mem hf)
  have hnodup : (fields.map (·.1)).Nodup := hsub.nodup hnames
  simp only [record, knownFields, hknown, if_pos hnodup]

/-- **Records are read back** when their fields are, written in the order of the names.  Some of
the fields may have been left out. -/
theorem ReadsBack.ofRecord {build : Source → Nat → Fields → Except Problem α}
    {write : α → Value} {a : α} (slots : Slots) (hwrite : write a = .object slots.filled)
    (hnames : (slots.map (·.1)).Nodup) (hplain : ∀ s ∈ slots, ∀ v ∈ s.2, v.Plain)
    (hbuild : ∀ source room fields, slots.Hold room fields → build source room fields = .ok a) :
    ReadsBack (record (slots.map (·.1)) build) write a where
  plain := by
    rw [hwrite]
    exact .object fun f hf => hplain _ (Slots.mem_filled_iff.mp hf) _ rfl
  reads source room hroom := by
    rw [hwrite] at hroom ⊢
    obtain ⟨r, rfl, hr⟩ := depth_object_le_iff.mp hroom
    rw [record_object hnames slots.names_filled]
    exact hbuild source r _ (Slots.hold_filled hnames hr)

theorem tagged_object {tag name : String} {tags : List String} {build : String → Reader α}
    {fields : Fields} (hfields : ∀ f ∈ fields, f.1 ≠ tag) (hplain : ∀ f ∈ fields, f.2.Plain)
    {room : Nat} (hroom : ∀ f ∈ fields, f.2.depth ≤ room) (source : Source) :
    tagged tag tags build source (room + 1) (.object ((tag, .string name) :: fields)) =
      build name .held (room + 1) (.object fields) := by
  have htag : ((tag, Value.string name) :: fields).filter (·.1 == tag) =
      [(tag, .string name)] := by
    have hnone : fields.filter (·.1 == tag) = [] := by
      rw [List.filter_eq_nil_iff]
      intro f hf
      simpa using hfields f hf
    simp [hnone]
  have hrest : ((tag, Value.string name) :: fields).filter (·.1 != tag) = fields := by
    have hall : fields.filter (·.1 != tag) = fields := by
      rw [List.filter_eq_self]
      intro f hf
      simpa using hfields f hf
    simp [hall]
  have hwhole : Value.depthFields fields ≤ room ∧ Value.soundFields fields = true :=
    ⟨depthFields_le_iff.mpr hroom, soundFields_of_plain hplain⟩
  simp only [tagged, htag, hrest, if_pos hwhole, tagName]

/-- **Tagged objects are read back** when what the tag selects reads the other fields. -/
theorem ReadsBack.ofTagged {tag name : String} {tags : List String} {build : String → Reader α}
    {write : α → Value} {a : α} {fields : Fields}
    (hwrite : write a = .object ((tag, .string name) :: fields))
    (hfields : ∀ f ∈ fields, f.1 ≠ tag)
    (h : ReadsBack (build name) (fun _ => .object fields) a) :
    ReadsBack (tagged tag tags build) write a := by
  have hplain : ∀ f ∈ fields, f.2.Plain := by
    cases h.plain with
    | object hplain => exact hplain
  refine ⟨?_, fun source room hroom => ?_⟩
  · rw [hwrite]
    exact .object (List.forall_mem_cons.mpr ⟨.string name, hplain⟩)
  · rw [hwrite] at hroom ⊢
    obtain ⟨r, rfl, hr⟩ := depth_object_le_iff.mp hroom
    rw [List.forall_mem_cons] at hr
    rw [tagged_object hfields hplain hr.2]
    exact h.reads .held (r + 1) (depth_object_le_iff.mpr ⟨r, rfl, hr.2⟩)

end

/-! ## Texts -/

/-- **What is written is read back**, from either layout, if it nests no deeper than is allowed. -/
theorem ReadsBack.decode {α : Type} {read : Reader α} {write : α → Value} {a : α}
    (h : ReadsBack read write a) (hdepth : (write a).depth ≤ nestingLimit) :
    Json.decode read (write a).compact = .ok a ∧
      ∀ after : String, Blanks after.toList →
        Json.decode read ((write a).pretty ++ after) = .ok a := by
  refine ⟨?_, fun after hafter => ?_⟩
  · rw [Json.decode, parse_compact h.plain]
    exact h.reads .direct nestingLimit hdepth
  · rw [Json.decode, parse_pretty h.plain hafter]
    exact h.reads .direct nestingLimit hdepth

end Hollow.Json
