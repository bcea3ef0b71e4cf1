import Hollow.Proofs.TreeOrder

/-!
# Positions and offsets

Spans are compared with cursor positions line by line and column by column, while nodes are nested
by their bytes.  Going forward in a source never goes back in lines and columns, so that a span
contains the positions of every span inside of it.

* `Position.AtMost` — the order of positions; `Span.contains_iff` says containment in terms of it.
* `Source.position_atMost` — positions follow offsets.
* `Node.contains_of_within` — a node spans what any node within it spans.
-/

namespace Hollow

/-! ## The order of positions -/

namespace Position

/-- The position is not behind another one. -/
def AtMost (p q : Position) : Prop := p.line < q.line ∨ p.line = q.line ∧ p.col ≤ q.col

theorem AtMost.trans {p q r : Position} (hpq : p.AtMost q) (hqr : q.AtMost r) : p.AtMost r := by
  unfold AtMost at *
  omega

end Position

namespace Span

/-- The first position of a span. -/
def first (s : Span) : Position := ⟨s.startLine, s.startCol⟩

/-- The last position of a span. -/
def last (s : Span) : Position := ⟨s.endLine, s.endCol⟩

theorem contains_iff {s : Span} {p : Position} :
    s.contains p = true ↔ s.first.AtMost p ∧ p.AtMost s.last := by
  simp only [contains, Position.AtMost, first, last, Bool.and_eq_true, Bool.or_eq_true,
    decide_eq_true_eq, beq_iff_eq]
  rw [eq_comm (a := p.line) (b := s.startLine)]

end Span

/-! ## Positions of offsets -/

namespace Source

variable {source : Source} {i j : Nat}

/-- The position of an offset. -/
def position (source : Source) (offset : Nat) : Position := ⟨source.line offset, source.col offset⟩

/-- Without a line end in between, only the column counts on. -/
theorem col_append {front back : Source} (h : newline ∉ back) :
    ((front ++ back).reverse.takeWhile (· != newline)).length =
      back.length + (front.reverse.takeWhile (· != newline)).length := by
  have hall : ∀ b ∈ back.reverse, (b != newline) = true := by
    intro b hb
    have hne : b ≠ newline := fun hb' => h (hb' ▸ List.mem_reverse.mp hb)
    simpa using hne
  rw [List.reverse_append, List.takeWhile_append_of_pos hall, List.length_append,
    List.length_reverse]

/-- **Positions follow offsets.** -/
theorem position_atMost (hij : i ≤ j) : (source.position i).AtMost (source.position j) := by
  have hsplit := List.take_append_drop i (source.take j)
  rw [List.take_take, Nat.min_eq_left hij] at hsplit
  obtain ⟨back, hback⟩ : ∃ back, back = (source.take j).drop i := ⟨_, rfl⟩
  rw [← hback] at hsplit
  simp only [Position.AtMost, position, line, col, ← hsplit, List.count_append]
  by_cases hnewline : newline ∈ back
  · have := List.count_pos_iff.mpr hnewline
    omega
  · have := List.count_eq_zero.mpr hnewline
    rw [col_append hnewline]
    omega

end Source

/-- A node spans what any node within it spans. -/
theorem Node.contains_of_within {source : Source} {n outer : Node} {p : Position}
    (h : n.Within outer) (hp : (n.span source).contains p = true) :
    (outer.span source).contains p = true := by
  rw [Span.contains_iff] at hp ⊢
  exact ⟨(Source.position_atMost h.1).trans hp.1, hp.2.trans (Source.position_atMost h.2)⟩

end Hollow
