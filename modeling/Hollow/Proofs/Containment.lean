import Hollow.Proofs.Positions

/-!
# Containment by lines and columns

A cursor is compared with spans line by line and column by column, yet spans come from byte ranges.
Nothing is lost on the way: one byte further is one column further, or the start of the next line,
so that positions of offsets stand in the order of the offsets.

* `Position.Before` — the strict order of positions.
* `Source.position_succ` — the position one byte further; `Source.position_before` — and any number
  of bytes further.
* `Source.position_atMost_iff` — positions and offsets have the same order.
* `Node.spans_as_bytes` — containment and nesting of spans are those of byte ranges.
-/

namespace Hollow

namespace Position

variable {p q r : Position}

/-- The position is in front of another one. -/
def Before (p q : Position) : Prop := p.line < q.line ∨ p.line = q.line ∧ p.col < q.col

theorem Before.trans (hpq : p.Before q) (hqr : q.Before r) : p.Before r := by
  unfold Before at *
  omega

theorem not_atMost_iff : ¬p.AtMost q ↔ q.Before p := by
  unfold AtMost Before
  omega

theorem AtMost.refl (p : Position) : p.AtMost p := Or.inr ⟨rfl, Nat.le_refl _⟩

end Position

/-! ## Strict order of offsets -/

namespace Source

variable {source : Source} {i j : Nat}

/-- One byte further: a line end leads to the start of the next line, any other byte to the next
column. -/
theorem position_succ (h : i < source.length) :
    source.position (i + 1) =
      if source[i] = newline then ⟨source.line i + 1, 1⟩
      else ⟨source.line i, source.col i + 1⟩ := by
  have htake : source.take (i + 1) = source.take i ++ [source[i]] := by
    rw [List.take_add_one, List.getElem?_eq_getElem h]
    rfl
  unfold position line col
  rw [htake, List.count_append, List.reverse_append]
  by_cases hnewline : source[i] = newline
  · simp [hnewline]
  · simp [hnewline]

theorem position_before_succ (h : i < source.length) :
    (source.position i).Before (source.position (i + 1)) := by
  rw [position_succ h]
  split
  · exact Or.inl (Nat.lt_succ_self _)
  · exact Or.inr ⟨rfl, Nat.lt_succ_self _⟩

/-- **Positions follow offsets strictly**, up to the end of the source. -/
theorem position_before (hij : i < j) (hj : j ≤ source.length) :
    (source.position i).Before (source.position j) := by
  induction j with
  | zero => exact absurd hij (Nat.not_lt_zero i)
  | succ j ih =>
    have hstep : (source.position j).Before (source.position (j + 1)) := position_before_succ hj
    rcases Nat.lt_succ_iff_lt_or_eq.mp hij with hlt | rfl
    · exact (ih hlt (Nat.le_of_succ_le hj)).trans hstep
    · exact hstep

/-- **Positions and offsets have the same order.** -/
theorem position_atMost_iff (hi : i ≤ source.length) :
    (source.position i).AtMost (source.position j) ↔ i ≤ j := by
  refine ⟨fun h => Nat.not_lt.mp fun hlt => ?_, position_atMost⟩
  exact Position.not_atMost_iff.mpr (position_before hlt hi) h

theorem eq_of_position_eq (hi : i ≤ source.length) (hj : j ≤ source.length)
    (h : source.position i = source.position j) : i = j := by
  apply Nat.le_antisymm
  · rw [← position_atMost_iff hi, h]
    exact Position.AtMost.refl _
  · rw [← position_atMost_iff hj, h]
    exact Position.AtMost.refl _

end Source

/-! ## Spans of nodes -/

/-- The span lies inside another one, by lines and columns. -/
def Span.CoveredBy (s outer : Span) : Prop := outer.first.AtMost s.first ∧ s.last.AtMost outer.last

/-- A span that is not turned round contains its ends. -/
theorem Span.coveredBy_iff {s outer : Span} (h : s.first.AtMost s.last) :
    s.CoveredBy outer ↔ ∀ p, s.contains p = true → outer.contains p = true := by
  simp only [contains_iff]
  constructor
  · intro hcovered p hp
    exact ⟨hcovered.1.trans hp.1, hp.2.trans hcovered.2⟩
  · intro hall
    exact ⟨(hall s.first ⟨.refl _, h⟩).1, (hall s.last ⟨h, .refl _⟩).2⟩

namespace Node

/-- The byte range of a node is one of the source. -/
structure RangesOver (source : Source) (n : Node) : Prop where
  start_le_end : n.startByte ≤ n.endByte
  end_le_length : n.endByte ≤ source.length

variable {source : Source} {n outer : Node}

theorem contains_position_iff {offset : Nat} (hn : n.RangesOver source)
    (hoffset : offset ≤ source.length) :
    (n.span source).contains (source.position offset) = true ↔
      n.startByte ≤ offset ∧ offset ≤ n.endByte := by
  have hstart := Nat.le_trans hn.start_le_end hn.end_le_length
  rw [Span.contains_iff, ← Source.position_atMost_iff hstart, ← Source.position_atMost_iff hoffset]
  rfl

theorem within_iff_coveredBy (hn : n.RangesOver source) (houter : outer.RangesOver source) :
    n.Within outer ↔ (n.span source).CoveredBy (outer.span source) := by
  have hstart := Nat.le_trans houter.start_le_end houter.end_le_length
  rw [Within, ← Source.position_atMost_iff hstart, ← Source.position_atMost_iff hn.end_le_length]
  rfl

/-- **Lines and columns tell what bytes tell.**  A node spans the position of an offset exactly when
the offset lies in its byte range, both ends included.  Different offsets have different positions.
Of two nodes, one lies within the other by its bytes exactly when it does by lines and columns:
when its ends do, and when the other spans every position that it spans. -/
theorem spans_as_bytes {offset : Nat} (hn : n.RangesOver source) (houter : outer.RangesOver source)
    (hoffset : offset ≤ source.length) :
    ((n.span source).contains (source.position offset) = true ↔
        n.startByte ≤ offset ∧ offset ≤ n.endByte) ∧
      (∀ other ≤ source.length, source.position other = source.position offset → other = offset) ∧
      (n.Within outer ↔ (n.span source).CoveredBy (outer.span source)) ∧
      (n.Within outer ↔
        ∀ p, (n.span source).contains p = true → (outer.span source).contains p = true) := by
  have hcovered := within_iff_coveredBy hn houter
  have hends : (n.span source).first.AtMost (n.span source).last :=
    Source.position_atMost hn.start_le_end
  refine ⟨contains_position_iff hn hoffset, ?_, hcovered,
    hcovered.trans (Span.coveredBy_iff hends)⟩
  intro other hother hsame
  exact Source.eq_of_position_eq hother hoffset hsame

/-- Braces on lines of their own around an empty line, with a line end at either end. -/
def bracesSource : Source := [10, 123, 10, 10, 125, 10]

/-- The node of the braces, and a node without extent on the empty line between them. -/
def bracesNode : Node := ⟨"block", none, 1, 5, true, false, false, []⟩

@[inherit_doc bracesNode]
def blankNode : Node := ⟨"empty", none, 3, 3, true, false, false, []⟩

theorem blankNode_spans_as_bytes :
    (∀ offset ≤ bracesSource.length,
        (blankNode.span bracesSource).contains (bracesSource.position offset) = true ↔ offset = 3) ∧
      bracesSource.position 3 = ⟨3, 1⟩ ∧
      (blankNode.span bracesSource).CoveredBy (bracesNode.span bracesSource) ∧
      ¬(bracesNode.span bracesSource).CoveredBy (blankNode.span bracesSource) := by
  have hblank : blankNode.RangesOver bracesSource := ⟨by decide, by decide⟩
  have hbraces : bracesNode.RangesOver bracesSource := ⟨by decide, by decide⟩
  refine ⟨fun offset hoffset => ?_, by decide, ?_, ?_⟩
  · rw [(spans_as_bytes hblank hbraces hoffset).1]
    change 3 ≤ offset ∧ offset ≤ 3 ↔ offset = 3
    omega
  · exact (spans_as_bytes hblank hbraces (Nat.zero_le _)).2.2.1.mp (by decide)
  · intro hcovered
    exact absurd ((spans_as_bytes hbraces hblank (Nat.zero_le _)).2.2.1.mpr hcovered) (by decide)

end Node

end Hollow
