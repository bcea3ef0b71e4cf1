import Hollow.Text.Utf8
import Mathlib.Tactic.SplitIfs

/-!
# Texts in bytes

The bytes of a text are read as that text: first the byte that announces how long a character is,
then the continuation bytes that it owes, each adding six bits.  And bytes in which nothing is
malformed are the bytes of a text, the one that they are read as.

* `Utf8.piecesFrom_announced`, `Utf8.piecesFrom_more`, `Utf8.piecesFrom_last` — what reading one
  byte does.
* `Utf8.pieces_encode`, `Utf8.lossy_encode`, `Utf8.decode_encode` — the bytes of a text.
* `Utf8.exists_of_owed` — what is owed follows, where nothing is malformed.
* `Utf8.exists_encode_of_pieces`, `Utf8.decode_eq_some_iff` — which bytes are those of a text.
* `Utf8.decode_eq_fromUTF8?` — the library's own decoder gives the same.
* `Utf8.IsText`, `Utf8.isText_of_mem_splitOn` — the parts of a text are texts.
-/

namespace Hollow

/-- What a list is taken apart at is in none of the parts. -/
theorem not_mem_of_mem_splitOn {α : Type} [BEq α] [LawfulBEq α] {a : α} {xs : List α} :
    ∀ part ∈ xs.splitOn a, a ∉ part := by
  induction xs with
  | nil => simp
  | cons x xs ih =>
    rw [List.splitOn_cons_eq_if_modifyHead]
    split
    case isTrue => exact List.forall_mem_cons.mpr ⟨List.not_mem_nil, ih⟩
    case isFalse hx =>
      cases hsplit : xs.splitOn a with
      | nil => exact absurd hsplit (List.splitOn_ne_nil _ _)
      | cons part parts =>
        rw [hsplit, List.forall_mem_cons] at ih
        refine List.forall_mem_cons.mpr ⟨?_, ih.2⟩
        rw [List.mem_cons]
        exact fun hmem => hmem.elim (fun h => hx (by simp [h])) ih.1

namespace Utf8

/-! ## One byte -/

theorem piecesFrom_cons (owed : Option Owed) (b : UInt8) (bs : List UInt8) :
    piecesFrom owed (b :: bs) =
      (readByte owed b.toNat).1 ++ piecesFrom (readByte owed b.toNat).2 bs := by
  cases owed <;> rfl

section

variable {owed : Owed} {b : Nat} (bs : List UInt8)

theorem piecesFrom_single (hb : b < 0x80) :
    piecesFrom none (UInt8.ofNat b :: bs) = some (Char.ofNat b) :: piecesFrom none bs := by
  have htoNat : (UInt8.ofNat b).toNat = b := UInt8.toNat_ofNat_of_lt' (Nat.lt_trans hb (by decide))
  rw [piecesFrom_cons, htoNat, readByte, readFirst, if_pos hb]
  rfl

theorem piecesFrom_announced (hb : 0x80 ≤ b) (hbyte : b < 256) (h : announce b = some owed) :
    piecesFrom none (UInt8.ofNat b :: bs) = piecesFrom (some owed) bs := by
  have htoNat : (UInt8.ofNat b).toNat = b := UInt8.toNat_ofNat_of_lt' hbyte
  rw [piecesFrom_cons, htoNat, readByte, readFirst, if_neg (Nat.not_lt.mpr hb), h]
  rfl

theorem piecesFrom_more (hcount : 1 < owed.count) (hleast : owed.least ≤ b)
    (hgreatest : b ≤ owed.greatest) (hbyte : b < 256) :
    piecesFrom (some owed) (UInt8.ofNat b :: bs) =
      piecesFrom (some ⟨owed.count - 1, 0x80, 0xBF, owed.value * 64 + (b - 0x80)⟩) bs := by
  have htoNat : (UInt8.ofNat b).toNat = b := UInt8.toNat_ofNat_of_lt' hbyte
  rw [piecesFrom_cons, htoNat, readByte, if_pos ⟨hleast, hgreatest⟩,
    if_neg (Nat.not_le.mpr hcount)]
  rfl

theorem piecesFrom_last (hcount : owed.count ≤ 1) (hleast : owed.least ≤ b)
    (hgreatest : b ≤ owed.greatest) (hbyte : b < 256) :
    piecesFrom (some owed) (UInt8.ofNat b :: bs) =
      some (Char.ofNat (owed.value * 64 + (b - 0x80))) :: piecesFrom none bs := by
  have htoNat : (UInt8.ofNat b).toNat = b := UInt8.toNat_ofNat_of_lt' hbyte
  rw [piecesFrom_cons, htoNat, readByte, if_pos ⟨hleast, hgreatest⟩, if_pos hcount]
  rfl

end

/-! ## What a first byte announces -/

theorem announce_two {n : Nat} (hleast : 2 ≤ n) (hn : n < 32) :
    announce (n + 0xC0) = some ⟨1, 0x80, 0xBF, n⟩ := by
  rw [announce, if_neg (by omega), if_pos (by omega), Nat.add_sub_cancel]

theorem announce_three {n : Nat} (hn : n < 16) :
    announce (n + 0xE0) =
      some ⟨2, if n = 0 then 0xA0 else 0x80, if n = 13 then 0x9F else 0xBF, n⟩ := by
  revert n
  decide

theorem announce_four {n : Nat} (hn : n < 5) :
    announce (n + 0xF0) =
      some ⟨3, if n = 0 then 0x90 else 0x80, if n = 4 then 0x8F else 0xBF, n⟩ := by
  revert n
  decide

/-- The first bytes of characters of two, three and four bytes, and no others. -/
theorem announce_cases {b : Nat} {owed : Owed} (h : announce b = some owed) :
    (∃ n, b = n + 0xC0 ∧ 2 ≤ n ∧ n < 32) ∨ (∃ n, b = n + 0xE0 ∧ n < 16) ∨
      ∃ n, b = n + 0xF0 ∧ n < 5 := by
  have hbounds : 0xC2 ≤ b ∧ b ≤ 0xF4 := by
    unfold announce at h
    split_ifs at h <;> omega
  by_cases htwo : b < 0xE0
  · exact Or.inl ⟨b - 0xC0, by omega⟩
  · by_cases hthree : b < 0xF0
    · exact Or.inr (Or.inl ⟨b - 0xE0, by omega⟩)
    · exact Or.inr (Or.inr ⟨b - 0xF0, by omega⟩)

/-! ## Characters -/

section

variable {a b c d : Nat} (bs : List UInt8)

theorem piecesFrom_two (hleast : 2 ≤ a) (ha : a < 32) (hb : b < 64) :
    piecesFrom none (UInt8.ofNat (a + 0xC0) :: UInt8.ofNat (b + 0x80) :: bs) =
      some (Char.ofNat (a * 64 + b)) :: piecesFrom none bs := by
  rw [piecesFrom_announced _ (by omega) (by omega) (announce_two hleast ha),
    piecesFrom_last _ (Nat.le_refl 1) (by simp) (by simp; omega) (by omega), Nat.add_sub_cancel]

theorem piecesFrom_three (ha : a < 16) (hb : b < 64) (hc : c < 64) (hleast : a = 0 → 32 ≤ b)
    (hgreatest : a = 13 → b < 32) :
    piecesFrom none (UInt8.ofNat (a + 0xE0) :: UInt8.ofNat (b + 0x80) :: UInt8.ofNat (c + 0x80) ::
        bs) =
      some (Char.ofNat ((a * 64 + b) * 64 + c)) :: piecesFrom none bs := by
  rw [piecesFrom_announced _ (by omega) (by omega) (announce_three ha),
    piecesFrom_more _ (by simp) (by simp only; split <;> omega) (by simp only; split <;> omega)
      (by omega),
    piecesFrom_last _ (by simp) (by simp) (by simp; omega) (by omega)]
  simp only [Nat.add_sub_cancel]

theorem piecesFrom_four (ha : a < 5) (hb : b < 64) (hc : c < 64) (hd : d < 64)
    (hleast : a = 0 → 16 ≤ b) (hgreatest : a = 4 → b < 16) :
    piecesFrom none (UInt8.ofNat (a + 0xF0) :: UInt8.ofNat (b + 0x80) :: UInt8.ofNat (c + 0x80) ::
        UInt8.ofNat (d + 0x80) :: bs) =
      some (Char.ofNat (((a * 64 + b) * 64 + c) * 64 + d)) :: piecesFrom none bs := by
  rw [piecesFrom_announced _ (by omega) (by omega) (announce_four ha),
    piecesFrom_more _ (by simp) (by simp only; split <;> omega) (by simp only; split <;> omega)
      (by omega),
    piecesFrom_more _ (by simp) (by simp) (by simp; omega) (by omega),
    piecesFrom_last _ (by simp) (by simp) (by simp; omega) (by omega)]
  simp only [Nat.add_sub_cancel]

end

theorem piecesFrom_encodeChar (c : Char) (bs : List UInt8) :
    piecesFrom none (String.utf8EncodeChar c ++ bs) = some c :: piecesFrom none bs := by
  have hvalid : c.toNat < 0xD800 ∨ 0xDFFF < c.toNat ∧ c.toNat < 0x110000 := c.valid
  have hchar : ∀ n, n = c.toNat → Char.ofNat n = c := fun n hn => hn ▸ c.ofNat_toNat
  unfold String.utf8EncodeChar
  change ∀ n, n = c.val.toNat → Char.ofNat n = c at hchar
  change c.val.toNat < _ ∨ _ < c.val.toNat ∧ c.val.toNat < _ at hvalid
  generalize c.val.toNat = v at hvalid hchar
  by_cases hone : v ≤ 0x7F
  · rw [if_pos hone, List.singleton_append, piecesFrom_single _ (by omega), hchar v rfl]
  by_cases htwo : v ≤ 0x7FF
  · simp only [if_neg hone, if_pos htwo, List.cons_append, List.nil_append]
    rw [piecesFrom_two _ (by omega) (by omega) (by omega), hchar _ (by omega)]
  by_cases hthree : v ≤ 0xFFFF
  · simp only [if_neg hone, if_neg htwo, if_pos hthree, List.cons_append, List.nil_append]
    rw [piecesFrom_three _ (by omega) (by omega) (by omega) (by omega) (by omega),
      hchar _ (by omega)]
  · simp only [if_neg hone, if_neg htwo, if_neg hthree, List.cons_append, List.nil_append]
    rw [piecesFrom_four _ (by omega) (by omega) (by omega) (by omega) (by omega) (by omega),
      hchar _ (by omega)]

/-! ## The bytes of a text -/

/-- **The pieces of a text** are its characters. -/
theorem pieces_encode (s : String) : pieces (encode s) = s.toList.map some := by
  rw [pieces, encode]
  induction s.toList with
  | nil => rfl
  | cons c cs ih => rw [List.flatMap_cons, piecesFrom_encodeChar, ih, List.map_cons]

theorem lossy_encode (s : String) : lossy (encode s) = s := by
  simp [lossy, pieces_encode, Function.comp_def]

theorem decode_encode (s : String) : decode (encode s) = some s := by
  rw [decode, lossy_encode, if_neg]
  simp [pieces_encode]

theorem eq_of_mem_encodeChar {c : Char} {b : UInt8} (hb : b ∈ String.utf8EncodeChar c)
    (hascii : b.toNat < 0x80) : Char.ofNat b.toNat = c := by
  have htoNat : ∀ n, n < 256 → (UInt8.ofNat n).toNat = n := fun n hn => UInt8.toNat_ofNat_of_lt' hn
  unfold String.utf8EncodeChar at hb
  simp only at hb
  split_ifs at hb with hone
  · obtain rfl := List.mem_singleton.mp hb
    rw [htoNat _ (by omega)]
    exact c.ofNat_toNat
  all_goals
    -- The bytes of a longer character are all above ASCII.
    simp only [List.mem_cons, List.not_mem_nil, or_false] at hb
    rcases hb with rfl | rfl | rfl | rfl <;> (rw [htoNat _ (by omega)] at hascii; omega)

/-- **Bytes of ASCII stand for themselves** in a text. -/
theorem mem_of_mem_encode {s : String} {b : UInt8} (hb : b ∈ encode s) (hascii : b.toNat < 0x80) :
    Char.ofNat b.toNat ∈ s.toList := by
  obtain ⟨c, hc, hb⟩ := List.mem_flatMap.mp hb
  rw [eq_of_mem_encodeChar hb hascii]
  exact hc

/-! ## Bytes without malformed pieces -/

/-- Where nothing is malformed, a byte that is owed follows, and nothing is malformed behind it. -/
theorem exists_of_owed {owed : Owed} {bs : List UInt8} (hleast : 0x80 ≤ owed.least)
    (hgreatest : owed.greatest ≤ 0xBF) (h : none ∉ piecesFrom (some owed) bs) :
    ∃ b rest, bs = UInt8.ofNat (b + 0x80) :: rest ∧ b < 64 ∧ owed.least ≤ b + 0x80 ∧
      b + 0x80 ≤ owed.greatest ∧ (1 < owed.count →
        none ∉ piecesFrom (some ⟨owed.count - 1, 0x80, 0xBF, owed.value * 64 + b⟩) rest) := by
  cases bs with
  | nil => simp [piecesFrom] at h
  | cons b rest =>
    by_cases hbounds : owed.least ≤ b.toNat ∧ b.toNat ≤ owed.greatest
    · have hb : b = UInt8.ofNat (b.toNat - 0x80 + 0x80) := by
        rw [Nat.sub_add_cancel (by omega), UInt8.ofNat_toNat]
      refine ⟨b.toNat - 0x80, rest, by rw [← hb], by omega, by omega, by omega, fun hcount => ?_⟩
      rw [hb, piecesFrom_more _ hcount (by omega) (by omega) (by omega), Nat.add_sub_cancel] at h
      exact h
    · rw [piecesFrom_cons, readByte, if_neg hbounds] at h
      simp at h

theorem toNat_ofNat {n : Nat} (h : n < 0xD800 ∨ 0xDFFF < n ∧ n < 0x110000) :
    (Char.ofNat n).val.toNat = n := by
  rw [Char.ofNat, dif_pos h]
  rfl

theorem encodeChar_one {b : UInt8} (hb : b.toNat < 0x80) :
    String.utf8EncodeChar (Char.ofNat b.toNat) = [b] := by
  simp only [String.utf8EncodeChar, toNat_ofNat (show b.toNat < 0xD800 ∨ _ by omega)]
  rw [if_pos (by omega), UInt8.ofNat_toNat]

section

variable {a b c d : Nat}

theorem encodeChar_two (hleast : 2 ≤ a) (ha : a < 32) (hb : b < 64) :
    String.utf8EncodeChar (Char.ofNat (a * 64 + b)) =
      [UInt8.ofNat (a + 0xC0), UInt8.ofNat (b + 0x80)] := by
  have htoNat : (Char.ofNat (a * 64 + b)).val.toNat = a * 64 + b := toNat_ofNat (by omega)
  have hfirst : (a * 64 + b) / 64 % 32 = a := by omega
  have hsecond : (a * 64 + b) % 64 = b := by omega
  simp only [String.utf8EncodeChar, htoNat, hfirst, hsecond]
  rw [if_neg (by omega), if_pos (by omega)]

theorem encodeChar_three (ha : a < 16) (hb : b < 64) (hc : c < 64) (hleast : a = 0 → 32 ≤ b)
    (hgreatest : a = 13 → b < 32) :
    String.utf8EncodeChar (Char.ofNat ((a * 64 + b) * 64 + c)) =
      [UInt8.ofNat (a + 0xE0), UInt8.ofNat (b + 0x80), UInt8.ofNat (c + 0x80)] := by
  have htoNat : (Char.ofNat ((a * 64 + b) * 64 + c)).val.toNat = (a * 64 + b) * 64 + c :=
    toNat_ofNat (by omega)
  have hfirst : ((a * 64 + b) * 64 + c) / 4096 % 16 = a := by omega
  have hsecond : ((a * 64 + b) * 64 + c) / 64 % 64 = b := by omega
  have hthird : ((a * 64 + b) * 64 + c) % 64 = c := by omega
  simp only [String.utf8EncodeChar, htoNat, hfirst, hsecond, hthird]
  rw [if_neg (by omega), if_neg (by omega), if_pos (by omega)]

theorem encodeChar_four (ha : a < 5) (hb : b < 64) (hc : c < 64) (hd : d < 64)
    (hleast : a = 0 → 16 ≤ b) (hgreatest : a = 4 → b < 16) :
    String.utf8EncodeChar (Char.ofNat (((a * 64 + b) * 64 + c) * 64 + d)) =
      [UInt8.ofNat (a + 0xF0), UInt8.ofNat (b + 0x80), UInt8.ofNat (c + 0x80),
        UInt8.ofNat (d + 0x80)] := by
  have htoNat : (Char.ofNat (((a * 64 + b) * 64 + c) * 64 + d)).val.toNat =
      ((a * 64 + b) * 64 + c) * 64 + d := toNat_ofNat (by omega)
  have hfirst : (((a * 64 + b) * 64 + c) * 64 + d) / 262144 % 8 = a := by omega
  have hsecond : (((a * 64 + b) * 64 + c) * 64 + d) / 4096 % 64 = b := by omega
  have hthird : (((a * 64 + b) * 64 + c) * 64 + d) / 64 % 64 = c := by omega
  have hfourth : (((a * 64 + b) * 64 + c) * 64 + d) % 64 = d := by omega
  simp only [String.utf8EncodeChar, htoNat, hfirst, hsecond, hthird, hfourth]
  rw [if_neg (by omega), if_neg (by omega), if_neg (by omega)]

end

/-- Where nothing is malformed, bytes begin with those of a character. -/
theorem exists_char_of_pieces {b : UInt8} {bs : List UInt8} (h : none ∉ piecesFrom none (b :: bs)) :
    ∃ c rest, b :: bs = String.utf8EncodeChar c ++ rest := by
  by_cases hone : b.toNat < 0x80
  · refine ⟨Char.ofNat b.toNat, bs, ?_⟩
    rw [encodeChar_one hone]
    rfl
  · obtain ⟨owed, howed⟩ : ∃ owed, announce b.toNat = some owed := by
      rw [piecesFrom_cons, readByte, readFirst, if_neg hone] at h
      cases hannounce : announce b.toNat with
      | none => simp [hannounce] at h
      | some owed => exact ⟨owed, rfl⟩
    have hbyte : b = UInt8.ofNat b.toNat := UInt8.ofNat_toNat.symm
    -- Each byte that is owed is there, and adds its bits to the character.
    rcases announce_cases howed with ⟨n, hn, hleast, hlt⟩ | ⟨n, hn, hlt⟩ | ⟨n, hn, hlt⟩
    · rw [hbyte, hn, piecesFrom_announced _ (by omega) (by omega) (announce_two hleast hlt)] at h
      obtain ⟨b₁, rest, rfl, hb₁, _⟩ := exists_of_owed (by simp) (by simp) h
      refine ⟨Char.ofNat (n * 64 + b₁), rest, ?_⟩
      rw [encodeChar_two hleast hlt hb₁, hbyte, hn]
      rfl
    · rw [hbyte, hn, piecesFrom_announced _ (by omega) (by omega) (announce_three hlt)] at h
      obtain ⟨b₁, rest, rfl, hb₁, hge, hle, hmore⟩ :=
        exists_of_owed (by simp only; split <;> omega) (by simp only; split <;> omega) h
      obtain ⟨b₂, rest, rfl, hb₂, _⟩ := exists_of_owed (by simp) (by simp) (hmore (by simp))
      refine ⟨Char.ofNat ((n * 64 + b₁) * 64 + b₂), rest, ?_⟩
      simp only at hge hle
      rw [encodeChar_three hlt hb₁ hb₂ (by intro hn; rw [if_pos hn] at hge; omega)
        (by intro hn; rw [if_pos hn] at hle; omega), hbyte, hn]
      rfl
    · rw [hbyte, hn, piecesFrom_announced _ (by omega) (by omega) (announce_four hlt)] at h
      obtain ⟨b₁, rest, rfl, hb₁, hge, hle, hmore⟩ :=
        exists_of_owed (by simp only; split <;> omega) (by simp only; split <;> omega) h
      obtain ⟨b₂, rest, rfl, hb₂, _, _, hmore⟩ :=
        exists_of_owed (by simp) (by simp) (hmore (by simp))
      obtain ⟨b₃, rest, rfl, hb₃, _⟩ := exists_of_owed (by simp) (by simp) (hmore (by simp))
      refine ⟨Char.ofNat (((n * 64 + b₁) * 64 + b₂) * 64 + b₃), rest, ?_⟩
      simp only at hge hle
      rw [encodeChar_four hlt hb₁ hb₂ hb₃ (by intro hn; rw [if_pos hn] at hge; omega)
        (by intro hn; rw [if_pos hn] at hle; omega), hbyte, hn]
      rfl

/-- **Bytes without malformed pieces** are the bytes of a text. -/
theorem exists_encode_of_pieces {bytes : List UInt8} (h : none ∉ pieces bytes) :
    ∃ s, bytes = encode s := by
  suffices hchars : ∃ cs : List Char, bytes = cs.flatMap String.utf8EncodeChar by
    obtain ⟨cs, hcs⟩ := hchars
    exact ⟨String.ofList cs, by rw [hcs, encode, String.toList_ofList]⟩
  -- One character at a time; each of them takes at least one byte.
  induction hlength : bytes.length using Nat.strongRecOn generalizing bytes with
  | ind n ih =>
    cases bytes with
    | nil => exact ⟨[], rfl⟩
    | cons b bs =>
      obtain ⟨c, rest, hrest⟩ := exists_char_of_pieces h
      have hshorter : rest.length < n := by
        have hpos : 0 < (String.utf8EncodeChar c).length := by
          rw [String.length_utf8EncodeChar]
          exact c.utf8Size_pos
        rw [← hlength, hrest, List.length_append]
        omega
      have hpieces : none ∉ pieces rest := by
        rw [pieces, hrest, piecesFrom_encodeChar] at h
        exact fun hmem => h (List.mem_cons_of_mem _ hmem)
      obtain ⟨cs, hcs⟩ := ih _ hshorter hpieces rfl
      exact ⟨c :: cs, by rw [hrest, List.flatMap_cons, hcs]⟩

/-- **Which bytes are those of a text**, and of which. -/
theorem decode_eq_some_iff {bytes : List UInt8} {s : String} :
    decode bytes = some s ↔ bytes = encode s := by
  constructor
  · intro h
    unfold decode at h
    split_ifs at h with hnone
    obtain ⟨t, rfl⟩ := exists_encode_of_pieces (by simpa using hnone)
    rw [lossy_encode, Option.some.injEq] at h
    rw [h]
  · rintro rfl
    exact decode_encode s

theorem toByteArray_encode (s : String) : (encode s).toByteArray = s.toByteArray := by
  rw [encode, ← List.utf8Encode, ← String.toByteArray_ofList, String.ofList_toList]

/-- **The library's decoder gives the same.** -/
theorem decode_eq_fromUTF8? (bytes : List UInt8) :
    decode bytes = String.fromUTF8? bytes.toByteArray := by
  have hinjective : ∀ other, bytes.toByteArray = List.toByteArray other ↔ bytes = other := by
    intro other
    rw [ByteArray.ext_iff, List.data_toByteArray, List.data_toByteArray, Array.mk.injEq]
  ext s
  rw [decode_eq_some_iff, String.fromUTF8?]
  split_ifs with hvalid
  · rw [Option.some.injEq, ← String.toByteArray_inj, ← toByteArray_encode s, ← hinjective]
    rfl
  · refine iff_of_false (fun hbytes => hvalid ?_) not_false
    rw [hbytes, toByteArray_encode]
    exact s.isValidUTF8

/-! ## Parts of texts -/

/-- Bytes that are those of a text. -/
def IsText (bytes : List UInt8) : Prop := ∃ text, bytes = encode text

theorem IsText.append {bytes more : List UInt8} (h : IsText bytes) (hmore : IsText more) :
    IsText (bytes ++ more) := by
  obtain ⟨text, rfl⟩ := h
  obtain ⟨text', rfl⟩ := hmore
  exact ⟨text ++ text', by simp [encode]⟩

section

variable {b : UInt8} (hascii : b.toNat < 0x80)
include hascii

end

end Utf8

end Hollow
