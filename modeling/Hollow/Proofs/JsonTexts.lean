import Hollow.Json.Parser
import Hollow.Json.Printer
import Mathlib.Data.List.TakeDrop
import Mathlib.Data.List.TakeWhile

/-!
# Texts of JSON values

What is written can be read.  Both layouts are instances of one grammar, which leaves the blanks
between tokens open, so that reading is looked at once.

* `digitsValue_toDigits`, `number_toDigits` — a number is read back from its digits;
* `stringRest_escaped` — a string is read back from its characters, escaped or not;
* `Spells` — the grammar: which texts a value has, with any blanks between tokens;
* `value_of_spells` — the reader gives the value of every such text, whatever follows it;
* `spells_compact`, `spells_pretty` — both layouts follow the grammar;
* `parse_compact`, `parse_pretty` — so either text is read as the value it was written for.
-/

namespace Hollow.Json

/-! ## Numbers -/

theorem digitsValue_toDigits (n : Nat) : digitsValue (Nat.toDigits 10 n) = n := by
  have hvalue : ∀ ds, digitsValue ds = Nat.ofDigitChars 10 ds 0 := by
    intro ds
    unfold digitsValue Nat.ofDigitChars
    simp only [Nat.mul_comm]
    rfl
  rw [hvalue]
  exact Nat.ofDigitChars_toDigits (by decide) (by decide)

theorem toDigits_ne_nil (n : Nat) : Nat.toDigits 10 n ≠ [] := by
  rw [Nat.toDigits_eq_if (by decide)]
  split <;> simp

/-- The digits of a number begin with a digit. -/
theorem exists_toDigits_eq_cons (n : Nat) :
    ∃ d ds, Nat.toDigits 10 n = d :: ds ∧ d.isDigit = true := by
  obtain ⟨d, ds, hds⟩ := List.exists_cons_of_ne_nil (toDigits_ne_nil n)
  have hmem : d ∈ Nat.toDigits 10 n := by
    rw [hds]
    exact List.mem_cons_self
  exact ⟨d, ds, hds, Nat.isDigit_of_mem_toDigits (by decide) (by decide) hmem⟩

/-- The digits of a positive number do not begin with a zero. -/
theorem head_toDigits {n : Nat} (hn : 0 < n) (ds : List Char) : Nat.toDigits 10 n ≠ '0' :: ds := by
  induction n using Nat.strongRecOn generalizing ds with
  | ind n ih =>
    rw [Nat.toDigits_eq_if (by decide)]
    split
    · rename_i hlt
      have hdigit : ∀ d < 10, 0 < d → d.digitChar ≠ '0' := by decide
      intro h
      exact hdigit n hlt hn (List.cons.inj h).1
    · intro h
      cases hfront : Nat.toDigits 10 (n / 10) with
      | nil => exact toDigits_ne_nil _ hfront
      | cons d front =>
        rw [hfront] at h
        obtain rfl := (List.cons.inj h).1
        exact ih (n / 10) (by omega) (by omega) front hfront

/-- What follows a number does not go on with it. -/
def EndsNumber (rest : List Char) : Prop :=
  ∀ c tail, rest = c :: tail → c.isDigit = false ∧ c ≠ '.' ∧ c ≠ 'e' ∧ c ≠ 'E'

theorem endsNumber_nil : EndsNumber [] := by
  intro c tail h
  cases h

theorem digits_append {ds rest : List Char} (hne : ds ≠ []) (hds : ∀ d ∈ ds, d.isDigit = true)
    (hrest : EndsNumber rest) : digits (ds ++ rest) = .ok (ds, rest) := by
  have hspan : (ds ++ rest).span Char.isDigit = (ds, rest) := by
    rw [List.span_eq_takeWhile_dropWhile, List.takeWhile_append_of_pos hds,
      List.dropWhile_append_of_pos hds]
    cases rest with
    | nil => simp
    | cons c tail => simp [(hrest c tail rfl).1]
  cases ds with
  | nil => exact absurd rfl hne
  | cons d ds =>
    have hd := hds d List.mem_cons_self
    unfold digits
    simp only [List.cons_append] at hspan ⊢
    rw [if_pos hd, hspan]

theorem wholePart_toDigits (n : Nat) {rest : List Char} (hrest : EndsNumber rest) :
    wholePart (Nat.toDigits 10 n ++ rest) = .ok (Nat.toDigits 10 n, rest) := by
  have hds : ∀ d ∈ Nat.toDigits 10 n, d.isDigit = true := by
    intro d hd
    exact Nat.isDigit_of_mem_toDigits (by decide) (by decide) hd
  unfold wholePart
  rw [digits_append (toDigits_ne_nil n) hds hrest]
  split
  · rename_i d ds rest' h
    have hzero : Nat.toDigits 10 n = '0' :: d :: ds := by
      simpa using congrArg Prod.fst (Except.ok.inj h)
    rcases Nat.eq_zero_or_pos n with rfl | hn
    · cases hzero
    · exact absurd hzero (head_toDigits hn _)
  · rfl

theorem fractionPart_of_ends {rest : List Char} (hrest : EndsNumber rest) :
    fractionPart rest = .ok ([], rest) := by
  unfold fractionPart
  split
  · exact absurd rfl (hrest _ _ rfl).2.1
  · rfl

theorem exponentPart_of_ends {rest : List Char} (hrest : EndsNumber rest) :
    exponentPart rest = .ok (none, rest) := by
  cases rest with
  | nil => rfl
  | cons c tail =>
    obtain ⟨_, _, he, hE⟩ := hrest c tail rfl
    simp [exponentPart, he, hE]

/-- **Numbers are read back** from their digits, as long as they have a floating-point number
near them. -/
theorem number_toDigits {n : Nat} (hn : n < doubleLimit) {rest : List Char}
    (hrest : EndsNumber rest) :
    number (Nat.toDigits 10 n ++ rest) = .ok (.natural n, rest) := by
  obtain ⟨d, ds, hds, hdigit⟩ := exists_toDigits_eq_cons n
  have hsign : d ≠ '-' := by
    rintro rfl
    cases hdigit
  have hwhole := wholePart_toDigits n hrest
  have hvalue := digitsValue_toDigits n
  have hsmall : exceedsDouble n 0 = false := by
    have hlimit : ¬doubleLimit ≤ n := Nat.not_le.mpr hn
    simp [exceedsDouble, hlimit]
  rw [hds, List.cons_append] at hwhole ⊢
  rw [hds] at hvalue
  simp [number, hsign, hwhole, fractionPart_of_ends hrest, exponentPart_of_ends hrest, hvalue,
    hsmall, bind, Except.bind, pure, Except.pure]

/-! ## Strings -/

theorem hexValue_hexDigit : ∀ d < 16, hexValue (hexDigit d) = some d := by decide

theorem escape_control {c : Char} (hc : c.toNat < 0x20) (rest : List Char) :
    escape ('u' :: '0' :: '0' :: hexDigit (c.toNat / 16) :: hexDigit (c.toNat % 16) :: rest) =
      .ok (some c, rest) := by
  have hhigh := hexValue_hexDigit (c.toNat / 16) (by omega)
  have hlow := hexValue_hexDigit (c.toNat % 16) (by omega)
  have hzero : hexValue '0' = some 0 := by decide
  have hvalue : ((0 * 16 + 0) * 16 + c.toNat / 16) * 16 + c.toNat % 16 = c.toNat := by omega
  have hleading : isLeadingHalf c.toNat = false := by
    unfold isLeadingHalf
    have : ¬0xD800 ≤ c.toNat := by omega
    simp [this]
  have htrailing : isTrailingHalf c.toNat = false := by
    unfold isTrailingHalf
    have : ¬0xDC00 ≤ c.toNat := by omega
    simp [this]
  unfold escape hexUnit
  simp only [hzero, hhigh, hlow, hvalue, hleading, htrailing, Char.ofNat_toNat]
  rfl

/-- One character of a string is read in one step. -/
theorem stringRest_escapeChar (bound : Nat) (read : List Char) (c : Char) (rest : List Char) :
    stringRest (bound + 1) (some read) (escapeChar c ++ rest) =
      stringRest bound (some (c :: read)) rest := by
  unfold escapeChar
  split
  · subst_vars; rfl
  split
  · subst_vars; rfl
  split
  · subst_vars; rfl
  split
  · subst_vars; rfl
  split
  · subst_vars; rfl
  split
  · subst_vars; rfl
  split
  · subst_vars; rfl
  split
  · rename_i hcontrol
    simp only [List.cons_append, List.nil_append]
    rw [stringRest, escape_control hcontrol]
    rfl
  · rename_i hquote hbackslash _ _ _ _ _ hprintable
    simp only [List.cons_append, List.nil_append]
    rw [stringRest, if_neg hprintable]
    · rfl
    · exact hquote
    · exact hbackslash

theorem stringRest_escaped (cs : List Char) {bound : Nat} (hbound : cs.length < bound)
    (read rest : List Char) :
    stringRest bound (some read) (cs.flatMap escapeChar ++ '"' :: rest) =
      .ok (.string (String.ofList (read.reverse ++ cs)), rest) := by
  induction cs generalizing bound read with
  | nil =>
    cases bound with
    | zero => simp at hbound
    | succ bound => simp [stringRest]
  | cons c cs ih =>
    cases bound with
    | zero => simp at hbound
    | succ bound =>
      have hrest := @ih bound (by simpa using hbound) (c :: read)
      rw [List.flatMap_cons, List.append_assoc, stringRest_escapeChar, hrest]
      simp

theorem length_flatMap_escapeChar (cs : List Char) :
    cs.length ≤ (cs.flatMap escapeChar).length := by
  induction cs with
  | nil => simp
  | cons c cs ih =>
    have hone : 1 ≤ (escapeChar c).length := by
      unfold escapeChar
      repeat' split
      all_goals simp
    simp only [List.flatMap_cons, List.length_cons, List.length_append]
    omega

/-- **Strings are read back**, whatever characters they hold. -/
theorem stringRest_quote (s : String) (rest : List Char) :
    stringRest ((s.toList.flatMap escapeChar ++ '"' :: rest).length + 1) (some [])
      (s.toList.flatMap escapeChar ++ '"' :: rest) = .ok (.string s, rest) := by
  have hlength := length_flatMap_escapeChar s.toList
  rw [stringRest_escaped]
  · simp
  · simp only [List.length_append, List.length_cons]
    omega

/-! ## The grammar -/

/-- Blanks only. -/
def Blanks (b : List Char) : Prop := ∀ c ∈ b, isBlank c = true

mutual

/-- The texts of a value, without blanks around it. -/
inductive Spells : Value → List Char → Prop
  | null : Spells .null ['n', 'u', 'l', 'l']
  | bool (b : Bool) : Spells (.bool b) (Value.bool b).scalarChars
  | natural {n : Nat} : n < doubleLimit → Spells (.natural n) (Nat.toDigits 10 n)
  | string (s : String) : Spells (.string s) (quote s)
  | emptyArray : Spells (.array []) ['[', ']']
  | array {vs : List Value} {cs : List Char} :
      SpellsElements vs cs → Spells (.array vs) ('[' :: cs)
  | emptyObject : Spells (.object []) ['\x7b', '\x7d']
  | object {fs : List (String × Value)} {cs : List Char} :
      SpellsFields fs cs → Spells (.object fs) ('\x7b' :: cs)

/-- The texts of one element or more, up to the closing bracket. -/
inductive SpellsElements : List Value → List Char → Prop
  | last {v : Value} {b cs b' : List Char} :
      Blanks b → Spells v cs → Blanks b' → SpellsElements [v] (b ++ (cs ++ (b' ++ [']'])))
  | cons {v : Value} {vs : List Value} {b cs ds : List Char} :
      Blanks b → Spells v cs → SpellsElements vs ds →
        SpellsElements (v :: vs) (b ++ (cs ++ ',' :: ds))

/-- The texts of one field or more, up to the closing brace. -/
inductive SpellsFields : List (String × Value) → List Char → Prop
  | last {k : String} {v : Value} {b b' cs b'' : List Char} :
      Blanks b → Blanks b' → Spells v cs → Blanks b'' →
        SpellsFields [(k, v)] (b ++ (quote k ++ ':' :: (b' ++ (cs ++ (b'' ++ ['\x7d'])))))
  | cons {k : String} {v : Value} {fs : List (String × Value)} {b b' cs ds : List Char} :
      Blanks b → Blanks b' → Spells v cs → SpellsFields fs ds →
        SpellsFields ((k, v) :: fs) (b ++ (quote k ++ ':' :: (b' ++ (cs ++ ',' :: ds))))

end

theorem skipBlanks_append {b : List Char} (hb : Blanks b) {c : Char} (hc : isBlank c = false)
    (cs : List Char) : skipBlanks (b ++ c :: cs) = c :: cs := by
  unfold skipBlanks
  rw [List.dropWhile_append_of_pos hb]
  simp [hc]

theorem skipBlanks_cons {c : Char} (hc : isBlank c = false) (cs : List Char) :
    skipBlanks (c :: cs) = c :: cs := by
  simp [skipBlanks, hc]

theorem isBlank_iff {c : Char} : isBlank c = true ↔ c = ' ' ∨ c = '\n' ∨ c = '\t' ∨ c = '\r' := by
  simp [isBlank, or_assoc]

theorem isBlank_of_isDigit {d : Char} (hd : d.isDigit = true) : isBlank d = false := by
  rw [Bool.eq_false_iff]
  intro hblank
  rcases isBlank_iff.mp hblank with rfl | rfl | rfl | rfl <;> cases hd

/-- A text of a value begins with a character that is neither a blank nor a closing bracket. -/
theorem Spells.head {v : Value} {cs : List Char} (h : Spells v cs) :
    ∃ c tail, cs = c :: tail ∧ isBlank c = false ∧ c ≠ ']' := by
  cases h with
  | null => exact ⟨_, _, rfl, by decide, by decide⟩
  | bool b => cases b <;> exact ⟨_, _, rfl, by decide, by decide⟩
  | @natural n _ =>
    obtain ⟨d, ds, hds, hdigit⟩ := exists_toDigits_eq_cons n
    refine ⟨d, ds, hds, isBlank_of_isDigit hdigit, ?_⟩
    rintro rfl
    cases hdigit
  | string s => exact ⟨_, _, rfl, by decide, by decide⟩
  | emptyArray => exact ⟨_, _, rfl, by decide, by decide⟩
  | array _ => exact ⟨_, _, rfl, by decide, by decide⟩
  | emptyObject => exact ⟨_, _, rfl, by decide, by decide⟩
  | object _ => exact ⟨_, _, rfl, by decide, by decide⟩

/-! ## Reading -/

theorem value_blanks {b : List Char} (hb : Blanks b) {c : Char} (hc : isBlank c = false)
    (bound : Nat) (cs : List Char) : value bound (b ++ c :: cs) = value bound (c :: cs) := by
  cases bound with
  | zero => simp [value]
  | succ bound => simp only [value, skipBlanks_append hb hc, skipBlanks_cons hc]

theorem value_of_isDigit {d : Char} (hd : d.isDigit = true) (bound : Nat) (cs : List Char) :
    value (bound + 1) (d :: cs) = number (d :: cs) := by
  unfold value
  rw [skipBlanks_cons (isBlank_of_isDigit hd)]
  split <;> simp_all

theorem endsNumber_cons {c : Char} (hc : c.isDigit = false ∧ c ≠ '.' ∧ c ≠ 'e' ∧ c ≠ 'E')
    (tail : List Char) : EndsNumber (c :: tail) := by
  intro c' tail' h
  obtain ⟨rfl, _⟩ := List.cons.inj h
  exact hc

theorem endsNumber_blanks {b : List Char} (hb : Blanks b) {rest : List Char}
    (hrest : EndsNumber rest) : EndsNumber (b ++ rest) := by
  cases b with
  | nil => exact hrest
  | cons c b =>
    refine endsNumber_cons ?_ _
    rcases isBlank_iff.mp (hb c List.mem_cons_self) with rfl | rfl | rfl | rfl <;> decide

theorem Spells.blanks {v : Value} {cs : List Char} (h : Spells v cs) {b : List Char}
    (hb : Blanks b) (bound : Nat) (rest : List Char) :
    value bound (b ++ (cs ++ rest)) = value bound (cs ++ rest) := by
  obtain ⟨c, tail, rfl, hc, _⟩ := h.head
  exact value_blanks hb hc bound (tail ++ rest)

/-- One element or more are not taken for an empty array. -/
theorem SpellsElements.skipBlanks_ne {vs : List Value} {cs : List Char} (h : SpellsElements vs cs)
    (rest tail : List Char) : skipBlanks (cs ++ rest) ≠ ']' :: tail := by
  have hfirst : ∃ b v ds es, Blanks b ∧ Spells v ds ∧ cs = b ++ (ds ++ es) := by
    cases h with
    | last hb hv _ => exact ⟨_, _, _, _, hb, hv, rfl⟩
    | cons hb hv _ => exact ⟨_, _, _, _, hb, hv, rfl⟩
  obtain ⟨b, v, ds, es, hb, hv, rfl⟩ := hfirst
  obtain ⟨c, tail', rfl, hc, hclosing⟩ := hv.head
  simp only [List.append_assoc, List.cons_append]
  rw [skipBlanks_append hb hc]
  intro h
  exact hclosing (List.cons.inj h).1

theorem SpellsFields.skipBlanks_ne {fs : List (String × Value)} {cs : List Char}
    (h : SpellsFields fs cs) (rest tail : List Char) :
    skipBlanks (cs ++ rest) ≠ '\x7d' :: tail := by
  have hfirst : ∃ b ds, Blanks b ∧ cs = b ++ '"' :: ds := by
    cases h with
    | last hb _ _ _ => exact ⟨_, _, hb, rfl⟩
    | cons hb _ _ _ => exact ⟨_, _, hb, rfl⟩
  obtain ⟨b, ds, hb, rfl⟩ := hfirst
  rw [List.append_assoc, List.cons_append, skipBlanks_append hb (by decide)]
  intro h
  exact absurd (List.cons.inj h).1 (by decide)

mutual

/-- **Every text of a value is read as that value**, whatever follows it. -/
theorem value_of_spells : ∀ {v : Value} {cs : List Char}, Spells v cs →
    ∀ (rest : List Char) (bound : Nat), cs.length ≤ bound → EndsNumber rest →
      value bound (cs ++ rest) = .ok (v, rest)
  | _, _, .null, rest, bound, hbound, _ => by
    cases bound with
    | zero => simp at hbound
    | succ bound => rfl
  | _, _, .bool b, rest, bound, hbound, _ => by
    cases bound with
    | zero => cases b <;> simp [Value.scalarChars] at hbound
    | succ bound => cases b <;> rfl
  | _, _, @Spells.natural n hn, rest, bound, hbound, hrest => by
    have hnumber := number_toDigits hn hrest
    obtain ⟨d, ds, hds, hdigit⟩ := exists_toDigits_eq_cons n
    rw [hds] at hnumber hbound ⊢
    cases bound with
    | zero => simp at hbound
    | succ bound => rw [List.cons_append, value_of_isDigit hdigit, ← List.cons_append, hnumber]
  | _, _, .string s, rest, bound, hbound, _ => by
    cases bound with
    | zero => simp [quote] at hbound
    | succ bound =>
      have hread := stringRest_quote s rest
      simp only [quote, List.cons_append, List.append_assoc, List.nil_append]
      exact hread
  | _, _, .emptyArray, rest, bound, hbound, _ => by
    cases bound with
    | zero => simp at hbound
    | succ bound => rfl
  | _, _, @Spells.array vs cs h, rest, bound, hbound, _ => by
    cases bound with
    | zero => simp at hbound
    | succ bound =>
      have helements := elements_of_spells h rest bound (by simpa using hbound)
      rw [List.cons_append, value, skipBlanks_cons (by decide)]
      simp only [helements]
      split
      · rename_i tail htail
        exact absurd htail (h.skipBlanks_ne rest tail)
      · rfl
  | _, _, .emptyObject, rest, bound, hbound, _ => by
    cases bound with
    | zero => simp at hbound
    | succ bound => rfl
  | _, _, @Spells.object fs cs h, rest, bound, hbound, _ => by
    cases bound with
    | zero => simp at hbound
    | succ bound =>
      have hfields := fields_of_spells h rest bound (by simpa using hbound)
      rw [List.cons_append, value, skipBlanks_cons (by decide)]
      simp only [hfields]
      split
      · rename_i tail htail
        exact absurd htail (h.skipBlanks_ne rest tail)
      · rfl

theorem elements_of_spells : ∀ {vs : List Value} {cs : List Char}, SpellsElements vs cs →
    ∀ (rest : List Char) (bound : Nat), cs.length ≤ bound →
      elements bound (cs ++ rest) = .ok (vs, rest)
  | _, _, @SpellsElements.last v b cs b' hb hv hb', rest, bound, hbound => by
    cases bound with
    | zero => simp at hbound
    | succ bound =>
      simp only [List.length_append, List.length_cons, List.length_nil] at hbound
      have hends : EndsNumber (b' ++ ']' :: rest) :=
        endsNumber_blanks hb' (endsNumber_cons (by decide) _)
      have hvalue := value_of_spells hv _ bound (by omega) hends
      simp only [List.append_assoc, List.cons_append, List.nil_append]
      rw [elements, hv.blanks hb, hvalue]
      simp only [skipBlanks_append hb' (show isBlank ']' = false by decide)]
  | _, _, @SpellsElements.cons v vs b cs ds hb hv hvs, rest, bound,
      hbound => by
    cases bound with
    | zero => simp at hbound
    | succ bound =>
      simp only [List.length_append, List.length_cons] at hbound
      have hends : EndsNumber (',' :: (ds ++ rest)) := endsNumber_cons (by decide) _
      have hvalue := value_of_spells hv _ bound (by omega) hends
      have helements := elements_of_spells hvs rest bound (by omega)
      simp only [List.append_assoc, List.cons_append]
      rw [elements, hv.blanks hb, hvalue]
      simp only [skipBlanks_cons (show isBlank ',' = false by decide), helements]

theorem fields_of_spells : ∀ {fs : List (String × Value)} {cs : List Char}, SpellsFields fs cs →
    ∀ (rest : List Char) (bound : Nat), cs.length ≤ bound →
      fields bound (cs ++ rest) = .ok (fs, rest)
  | _, _, @SpellsFields.last k v b b' cs b'' hb hb' hv hb'', rest,
      bound, hbound => by
    cases bound with
    | zero => simp at hbound
    | succ bound =>
      simp only [List.length_append, List.length_cons, List.length_nil] at hbound
      have hends : EndsNumber (b'' ++ '\x7d' :: rest) :=
        endsNumber_blanks hb'' (endsNumber_cons (by decide) _)
      have hvalue := value_of_spells hv _ bound (by omega) hends
      have hkey := stringRest_quote k (':' :: (b' ++ (cs ++ (b'' ++ '\x7d' :: rest))))
      simp only [quote, List.append_assoc, List.cons_append, List.nil_append]
      rw [fields, skipBlanks_append hb (by decide)]
      simp only [hkey, skipBlanks_cons (show isBlank ':' = false by decide)]
      rw [hv.blanks hb', hvalue]
      simp only [skipBlanks_append hb'' (show isBlank '\x7d' = false by decide)]
  | _, _, @SpellsFields.cons k v fs b b' cs ds hb hb' hv hfs, rest, bound, hbound => by
    cases bound with
    | zero => simp at hbound
    | succ bound =>
      simp only [List.length_append, List.length_cons] at hbound
      have hends : EndsNumber (',' :: (ds ++ rest)) := endsNumber_cons (by decide) _
      have hvalue := value_of_spells hv _ bound (by omega) hends
      have hfields := fields_of_spells hfs rest bound (by omega)
      have hkey := stringRest_quote k (':' :: (b' ++ (cs ++ ',' :: (ds ++ rest))))
      simp only [quote, List.append_assoc, List.cons_append, List.nil_append]
      rw [fields, skipBlanks_append hb (by decide)]
      simp only [hkey, skipBlanks_cons (show isBlank ':' = false by decide)]
      rw [hv.blanks hb', hvalue]
      simp only [skipBlanks_cons (show isBlank ',' = false by decide), hfields]

end

/-- A text is read as the value that it spells, with blanks behind it or without. -/
theorem parse_of_spells {v : Value} {cs b : List Char} (h : Spells v cs) (hb : Blanks b) :
    parse (String.ofList (cs ++ b)) = .ok v := by
  have hvalue := value_of_spells h b (2 * (cs ++ b).length + 2)
    (by simp only [List.length_append]; omega) (by simpa using endsNumber_blanks hb endsNumber_nil)
  have hblank : skipBlanks b = [] := by
    rw [skipBlanks, List.dropWhile_eq_nil_iff]
    exact hb
  unfold parse
  simp only [String.toList_ofList, hvalue, hblank]
  rfl

/-! ## Writing -/

/-- A value whose text tells what it is: its numbers are natural ones in the floating-point range,
and none of its literals is flawed. -/
inductive Value.Plain : Value → Prop
  | null : Plain .null
  | bool (b : Bool) : Plain (.bool b)
  | natural {n : Nat} : n < doubleLimit → Plain (.natural n)
  | string (s : String) : Plain (.string s)
  | array {vs : List Value} : (∀ v ∈ vs, Plain v) → Plain (.array vs)
  | object {fs : List (String × Value)} : (∀ f ∈ fs, Plain f.2) → Plain (.object fs)

theorem blanks_nil : Blanks [] := by
  intro c hc
  cases hc

theorem blanks_newline (level : Nat) : Blanks (Value.newline level) := by
  intro c hc
  rcases List.mem_cons.mp hc with rfl | hc
  · decide
  · rw [List.eq_of_mem_replicate hc]
    decide

theorem blanks_space : Blanks [' '] := by
  intro c hc
  rw [List.mem_singleton.mp hc]
  decide

theorem spellsElements_compact {v : Value} {vs : List Value}
    (h : ∀ w ∈ v :: vs, Spells w w.compactChars) :
    SpellsElements (v :: vs) (v.compactChars ++ Value.compactElements vs) := by
  induction vs generalizing v with
  | nil =>
    rw [Value.compactElements]
    exact .last blanks_nil (h v List.mem_cons_self) blanks_nil
  | cons w vs ih =>
    rw [List.forall_mem_cons] at h
    rw [Value.compactElements]
    exact .cons blanks_nil h.1 (ih h.2)

theorem spellsFields_compact {k : String} {v : Value} {fs : List (String × Value)}
    (h : ∀ f ∈ (k, v) :: fs, Spells f.2 f.2.compactChars) :
    SpellsFields ((k, v) :: fs)
      (quote k ++ ':' :: (v.compactChars ++ Value.compactFields fs)) := by
  induction fs generalizing k v with
  | nil =>
    rw [Value.compactFields]
    exact .last blanks_nil blanks_nil (h (k, v) List.mem_cons_self) blanks_nil
  | cons f fs ih =>
    rw [List.forall_mem_cons] at h
    rw [Value.compactFields]
    exact .cons blanks_nil blanks_nil h.1 (ih h.2)

/-- The layout without blanks follows the grammar. -/
theorem spells_compact {v : Value} (hv : v.Plain) : Spells v v.compactChars := by
  induction hv with
  | null => exact .null
  | bool b => exact .bool b
  | natural hn => exact .natural hn
  | string s => exact .string s
  | @array vs _ ih =>
    cases vs with
    | nil => exact .emptyArray
    | cons v vs =>
      rw [Value.compactChars]
      exact .array (spellsElements_compact ih)
  | @object fs _ ih =>
    cases fs with
    | nil => exact .emptyObject
    | cons f fs =>
      rw [Value.compactChars]
      exact .object (spellsFields_compact ih)

theorem spellsElements_pretty {v : Value} {vs : List Value} (level : Nat)
    (h : ∀ w ∈ v :: vs, Spells w (w.prettyChars (level + 1))) :
    SpellsElements (v :: vs) (Value.newline (level + 1) ++ v.prettyChars (level + 1) ++
      Value.prettyElements level vs) := by
  induction vs generalizing v with
  | nil =>
    rw [Value.prettyElements, List.append_assoc]
    exact .last (blanks_newline _) (h v List.mem_cons_self) (blanks_newline _)
  | cons w vs ih =>
    rw [List.forall_mem_cons] at h
    rw [Value.prettyElements, List.append_assoc]
    exact .cons (blanks_newline _) h.1 (ih h.2)

theorem spellsFields_pretty {k : String} {v : Value} {fs : List (String × Value)} (level : Nat)
    (h : ∀ f ∈ (k, v) :: fs, Spells f.2 (f.2.prettyChars (level + 1))) :
    SpellsFields ((k, v) :: fs) (Value.newline (level + 1) ++ quote k ++
      ':' :: ' ' :: (v.prettyChars (level + 1) ++ Value.prettyFields level fs)) := by
  induction fs generalizing k v with
  | nil =>
    rw [Value.prettyFields, List.append_assoc]
    exact .last (blanks_newline _) blanks_space (h (k, v) List.mem_cons_self) (blanks_newline _)
  | cons f fs ih =>
    rw [List.forall_mem_cons] at h
    rw [Value.prettyFields, List.append_assoc]
    exact .cons (blanks_newline _) blanks_space h.1 (ih h.2)

/-- The indented layout follows the grammar, at every level. -/
theorem spells_pretty {v : Value} (hv : v.Plain) (level : Nat) :
    Spells v (v.prettyChars level) := by
  induction hv generalizing level with
  | null => exact .null
  | bool b => exact .bool b
  | natural hn => exact .natural hn
  | string s => exact .string s
  | @array vs _ ih =>
    cases vs with
    | nil => exact .emptyArray
    | cons v vs =>
      rw [Value.prettyChars]
      exact .array (spellsElements_pretty level fun w hw => ih w hw (level + 1))
  | @object fs _ ih =>
    cases fs with
    | nil => exact .emptyObject
    | cons f fs =>
      rw [Value.prettyChars]
      exact .object (spellsFields_pretty level fun f hf => ih f hf (level + 1))

/-- **The text without blanks is read back.** -/
theorem parse_compact {v : Value} (hv : v.Plain) : parse v.compact = .ok v := by
  simpa [Value.compact] using parse_of_spells (spells_compact hv) blanks_nil

/-- **The indented text is read back**, also with blanks behind it. -/
theorem parse_pretty {v : Value} (hv : v.Plain) {after : String} (hafter : Blanks after.toList) :
    parse (v.pretty ++ after) = .ok v := by
  have htext : v.pretty ++ after = String.ofList (v.prettyChars 0 ++ after.toList) := by
    simp [Value.pretty]
  rw [htext]
  exact parse_of_spells (spells_pretty hv 0) hafter

end Hollow.Json
