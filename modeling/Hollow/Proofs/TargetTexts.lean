import Hollow.Command.Target
import Mathlib.Data.List.TakeWhile

/-!
# Texts of positions

A position is a file, a line and a column with colons between them.  The file may hold colons and
digits of its own, so that there are many places to cut at; but a number holds no colon, so that
only the last two colons can be meant.

* `cutNumber_eq_some_iff`, `Target.split_eq_some_iff` — where a text is cut.
* `readNumber_eq_ok_iff` — which digits make up a number, and which number.
* `IsNumeral`, `Target.Writes` — the grammar of positions.
* `Target.Writes.parse`, `Target.exists_writes_of_parse` — what is read is what the grammar says.
* `Target.parse_follows_grammar` — the same with all that follows from it: the parts of a position
  are unique, and a position that is written out is read back.
-/

namespace Hollow

/-! ## Cutting numbers off -/

theorem isDecimalDigit_of_isDigit {c : Char} (h : c.isDigit = true) : isDecimalDigit c = true := by
  obtain ⟨hlow, hhigh⟩ := Char.isDigit_iff_toNat.mp h
  have hzero : 0x30 ∈ digitZeros := by decide
  have hrun : 0x30 ≤ c.toNat ∧ c.toNat < 0x30 + 10 := ⟨hlow, Nat.lt_succ_of_le hhigh⟩
  exact List.any_eq_true.mpr ⟨0x30, hzero, by simpa using hrun⟩

theorem isDecimalDigit_colon : isDecimalDigit ':' = false := by decide

theorem takeWhile_isDecimalDigit {digits : List Char} (h : ∀ d ∈ digits, isDecimalDigit d = true)
    (rest : List Char) : (digits ++ ':' :: rest).takeWhile isDecimalDigit = digits := by
  rw [List.takeWhile_append_of_pos h, List.takeWhile_cons_of_neg (by simp [isDecimalDigit_colon]),
    List.append_nil]

/-- What is cut off are digits, as many as there are, and the colon in front of them. -/
theorem cutNumber_eq_some_iff {backwards digits rest : List Char} :
    cutNumber backwards = some (digits, rest) ↔
      digits ≠ [] ∧ (∀ d ∈ digits, isDecimalDigit d = true) ∧
        backwards = digits.reverse ++ ':' :: rest := by
  constructor
  · intro h
    have hsplit :=
      List.prefix_iff_eq_append.mp (List.takeWhile_prefix isDecimalDigit (l := backwards))
    have hall : ∀ d ∈ backwards.takeWhile isDecimalDigit, isDecimalDigit d = true :=
      fun d hd => List.mem_takeWhile_imp hd
    unfold cutNumber at h
    simp only at h
    split at h
    · rename_i d ds behind hdigits hbehind
      obtain ⟨rfl, rfl⟩ := Prod.mk.inj (Option.some.inj h)
      rw [hbehind] at hsplit
      refine ⟨by simp [hdigits], fun c hc => hall c (List.mem_reverse.mp hc), ?_⟩
      rw [List.reverse_reverse]
      exact hsplit.symm
    · cases h
  · rintro ⟨hne, hall, rfl⟩
    have htake : (digits.reverse ++ ':' :: rest).takeWhile isDecimalDigit = digits.reverse :=
      takeWhile_isDecimalDigit (by simpa using hall) rest
    unfold cutNumber
    simp only [htake, List.drop_left]
    cases hdigits : digits.reverse with
    | nil => exact absurd (List.reverse_eq_nil_iff.mp hdigits) hne
    | cons d ds =>
      have hback : (d :: ds).reverse = digits := by rw [← hdigits, List.reverse_reverse]
      simp only [hback]

/-- A text is cut at its last two colons, where digits follow both and a file stands in front. -/
theorem Target.split_eq_some_iff {arg file : String} {line col : List Char} :
    split arg = some (file, line, col) ↔
      arg.toList = file.toList ++ ':' :: (line ++ ':' :: col) ∧
        (file ≠ "" ∧ '\n' ∉ file.toList) ∧
        (line ≠ [] ∧ ∀ d ∈ line, isDecimalDigit d = true) ∧
        (col ≠ [] ∧ ∀ d ∈ col, isDecimalDigit d = true) := by
  constructor
  · intro h
    unfold split at h
    split at h
    · cases h
    · rename_i col' beforeCol hcol
      split at h
      · cases h
      · rename_i line' backwards hline
        split at h
        · cases h
        · rename_i hfile
          simp only [Option.some.injEq, Prod.mk.injEq] at h
          obtain ⟨rfl, rfl, rfl⟩ := h
          obtain ⟨hcolNe, hcolDigits, hcut⟩ := cutNumber_eq_some_iff.mp hcol
          obtain ⟨hlineNe, hlineDigits, rfl⟩ := cutNumber_eq_some_iff.mp hline
          refine ⟨?_, ?_, ⟨hlineNe, hlineDigits⟩, hcolNe, hcolDigits⟩
          · rw [List.reverse_eq_iff] at hcut
            simp [hcut]
          · simpa [← String.toList_eq_nil_iff] using hfile
  · rintro ⟨hparts, hfile, hline, hcol⟩
    have hback : arg.toList.reverse =
        col.reverse ++ ':' :: (line.reverse ++ ':' :: file.toList.reverse) := by
      simp [hparts]
    have hcutCol := cutNumber_eq_some_iff.mpr ⟨hcol.1, hcol.2, hback⟩
    have hcutLine : cutNumber (line.reverse ++ ':' :: file.toList.reverse) =
        some (line, file.toList.reverse) :=
      cutNumber_eq_some_iff.mpr ⟨hline.1, hline.2, rfl⟩
    have hguard : ¬(file.toList.reverse.isEmpty || file.toList.reverse.contains '\n') = true := by
      simpa [← String.toList_eq_nil_iff] using hfile
    simp only [split, hcutCol, hcutLine, if_neg hguard]
    simp

/-! ## Reading numbers -/

/-- Further digits do not make a number smaller. -/
theorem le_ofDigitChars (value : Nat) (cs : List Char) : value ≤ Nat.ofDigitChars 10 cs value := by
  rw [Nat.ofDigitChars_eq_ofDigitChars_zero]
  have hpow : 1 * value ≤ 10 ^ cs.length * value :=
    Nat.mul_le_mul_right _ (Nat.one_le_pow _ _ (by decide))
  omega

/-- **Numbers are read as they stand**: ASCII digits whose value fits, and nothing else. -/
theorem readNumber_eq_ok_iff {value n : Nat} {cs : List Char} (hvalue : value < UInt64.size) :
    readNumber value cs = .ok n ↔
      (∀ c ∈ cs, c.isDigit = true) ∧ Nat.ofDigitChars 10 cs value = n ∧ n < UInt64.size := by
  induction cs generalizing value with
  | nil =>
    simp only [readNumber, Nat.ofDigitChars_nil, Except.ok.injEq, List.not_mem_nil]
    constructor
    · rintro rfl
      exact ⟨by simp, rfl, hvalue⟩
    · exact fun h => h.2.1
  | cons c cs ih =>
    rw [readNumber, List.forall_mem_cons, Nat.ofDigitChars_cons, Nat.mul_comm 10 value]
    by_cases hc : c.isDigit = true
    · simp only [hc, Bool.not_true, Bool.false_eq_true, if_false, true_and]
      split
      · rename_i hlarge
        -- The value only grows, so that it does not fit in the end either.
        refine iff_of_false (by simp) fun ⟨_, hn, hfits⟩ => ?_
        have hgrows := le_ofDigitChars (value * 10 + (c.toNat - '0'.toNat)) cs
        omega
      · rename_i hfits
        exact ih (Nat.lt_of_not_le hfits)
    · simp [hc]

/-! ## The grammar of positions -/

/-- The number that a text of digits stands for. -/
def numeralValue (digits : String) : Nat := Nat.ofDigitChars 10 digits.toList 0

/-- ASCII digits, at least one, for a number from one on that fits 64 bits. -/
structure IsNumeral (digits : String) : Prop where
  ne_empty : digits ≠ ""
  isDigit : ∀ c ∈ digits.toList, c.isDigit = true
  one_le : 1 ≤ numeralValue digits
  lt_size : numeralValue digits < UInt64.size

theorem IsNumeral.readNumber {digits : String} (h : IsNumeral digits) :
    readNumber 0 digits.toList = .ok (numeralValue digits) :=
  (readNumber_eq_ok_iff (by decide)).mpr ⟨h.isDigit, rfl, h.lt_size⟩

theorem IsNumeral.isDecimalDigit {digits : String} (h : IsNumeral digits) :
    digits.toList ≠ [] ∧ ∀ d ∈ digits.toList, isDecimalDigit d = true :=
  ⟨fun hnil => h.ne_empty (String.toList_eq_nil_iff.mp hnil),
    fun d hd => isDecimalDigit_of_isDigit (h.isDigit d hd)⟩

theorem isNumeral_of_readNumber {digits : List Char} {n : Nat} (hne : digits ≠ [])
    (h : readNumber 0 digits = .ok n) (hn : n ≠ 0) : IsNumeral (String.ofList digits) := by
  obtain ⟨hdigits, hvalue, hfits⟩ := (readNumber_eq_ok_iff (by decide)).mp h
  have hvalue : numeralValue (String.ofList digits) = n := by
    rw [numeralValue, String.toList_ofList, hvalue]
  refine ⟨?_, ?_, ?_, ?_⟩
  · simpa [← String.toList_eq_nil_iff] using hne
  · simpa using hdigits
  · rw [hvalue]
    omega
  · rw [hvalue]
    exact hfits

theorem numeralValue_toString (n : Nat) : numeralValue (toString n) = n := by
  rw [numeralValue, Nat.toString_eq_repr, Nat.toList_repr]
  exact Nat.ofDigitChars_toDigits (by decide) (by decide)

/-- A number that is written out is a numeral. -/
theorem isNumeral_toString {n : Nat} (hpos : 1 ≤ n) (hfits : n < UInt64.size) :
    IsNumeral (toString n) := by
  refine ⟨Nat.repr_ne_empty, ?_, ?_, ?_⟩
  · intro c hc
    rw [Nat.toString_eq_repr, Nat.toList_repr] at hc
    exact Nat.isDigit_of_mem_toDigits (by decide) (by decide) hc
  · rw [numeralValue_toString]
    exact hpos
  · rw [numeralValue_toString]
    exact hfits

namespace Target

/-- The text is a file, a line and a column with colons between them. -/
structure Writes (arg file line col : String) : Prop where
  parts : arg = file ++ ":" ++ line ++ ":" ++ col
  file_ne : file ≠ ""
  newline : '\n' ∉ file.toList
  line : IsNumeral line
  col : IsNumeral col

variable {arg file line col : String}

theorem Writes.split (h : Writes arg file line col) :
    split arg = some (file, line.toList, col.toList) := by
  refine split_eq_some_iff.mpr ⟨?_, ⟨h.file_ne, h.newline⟩, h.line.isDecimalDigit,
    h.col.isDecimalDigit⟩
  simp [h.parts]

/-- The parts of a position are read from its text. -/
theorem Writes.parse (h : Writes arg file line col) :
    parse arg = .ok ⟨file, ⟨numeralValue line, numeralValue col⟩⟩ := by
  have hpositive : ¬(numeralValue line = 0 ∨ numeralValue col = 0) := by
    have hline := h.line.one_le
    have hcol := h.col.one_le
    omega
  simp only [Target.parse, h.split, h.line.readNumber, h.col.readNumber, if_neg hpositive]

/-- **What is read follows the grammar.** -/
theorem exists_writes_of_parse {t : Target} (h : parse arg = .ok t) :
    ∃ line col, Writes arg t.file line col := by
  unfold parse at h
  split at h
  · cases h
  · rename_i file lineDigits colDigits hsplit
    split at h
    · cases h
    · rename_i line hline
      split at h
      · cases h
      · rename_i col hcol
        split at h
        · cases h
        · rename_i hpositive
          rw [not_or] at hpositive
          obtain rfl := Except.ok.inj h
          obtain ⟨hparts, hfile, ⟨hlineNe, _⟩, hcolNe, _⟩ := split_eq_some_iff.mp hsplit
          refine ⟨String.ofList lineDigits, String.ofList colDigits, ?_, hfile.1, hfile.2,
            isNumeral_of_readNumber hlineNe hline hpositive.1,
            isNumeral_of_readNumber hcolNe hcol hpositive.2⟩
          rw [← String.toList_inj, hparts]
          simp

/-- The colons of a position can be placed in one way only. -/
theorem Writes.unique (h : Writes arg file line col) {file' line' col' : String}
    (h' : Writes arg file' line' col') : file' = file ∧ line' = line ∧ col' = col := by
  have hsplit := h'.split.symm.trans h.split
  simp only [Option.some.injEq, Prod.mk.injEq, String.toList_inj] at hsplit
  exact hsplit

/-- **Positions are read exactly as the grammar says.**  A text is a position if and only if it is
a file, a line and a column with colons between them: a file with at least one character and no line
end, and ASCII numerals from 1 to 2⁶⁴ - 1.  These parts are then unique, and they are what is read.
So whatever the file, colons and digits included, a position that is written out is read back. -/
theorem parse_follows_grammar (arg : String) :
    ((∃ t, parse arg = .ok t) ↔ ∃ file line col, Writes arg file line col) ∧
      (∀ file line col, Writes arg file line col →
        parse arg = .ok ⟨file, ⟨numeralValue line, numeralValue col⟩⟩ ∧
          ∀ file' line' col', Writes arg file' line' col' →
            file' = file ∧ line' = line ∧ col' = col) ∧
      ∀ (file : String) (line col : Nat), file ≠ "" → '\n' ∉ file.toList →
        1 ≤ line → line < UInt64.size → 1 ≤ col → col < UInt64.size →
        arg = file ++ ":" ++ toString line ++ ":" ++ toString col →
        parse arg = .ok ⟨file, ⟨line, col⟩⟩ := by
  refine ⟨⟨?_, ?_⟩, ?_, ?_⟩
  · rintro ⟨t, ht⟩
    exact ⟨t.file, exists_writes_of_parse ht⟩
  · rintro ⟨file, line, col, h⟩
    exact ⟨_, h.parse⟩
  · intro file line col h
    exact ⟨h.parse, fun _ _ _ h' => h.unique h'⟩
  · intro file line col hfile hnewline hline hlineFits hcol hcolFits harg
    have h : Writes arg file (toString line) (toString col) :=
      ⟨harg, hfile, hnewline, isNumeral_toString hline hlineFits, isNumeral_toString hcol hcolFits⟩
    rw [h.parse, numeralValue_toString, numeralValue_toString]

theorem colonsInFile_read_back :
    parse "C:\\a.py:7:03:12:18446744073709551615" =
      .ok ⟨"C:\\a.py:7:03", ⟨12, 18446744073709551615⟩⟩ :=
  (parse_follows_grammar _).2.2 "C:\\a.py:7:03" 12 18446744073709551615 (by decide) (by decide)
    (by decide) (by decide) (by decide) (by decide) (by decide)

/-- Digits of other scripts are cut off as digits, but make up no number. -/
example : parse "a.py:1:٣" = .error .invalidDigit := by decide

end Target

end Hollow
