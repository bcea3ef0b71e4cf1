/-!
# Spans

A `Span` is a stretch of source text, given twice: as byte offsets (counted from zero, the end
exclusive) and as line and column positions (both counted from one).  Containment of a cursor
position is decided on lines and columns, and both ends count as inside, so that a cursor
between the braces of an empty block lies in the block.
-/

namespace Hollow

/-- A cursor position, line and column counted from one. -/
structure Position where
  line : Nat
  col : Nat
  deriving DecidableEq, Repr

/-- A stretch of source text as byte offsets and as line/column positions. -/
structure Span where
  startByte : Nat
  endByte : Nat
  startLine : Nat
  startCol : Nat
  endLine : Nat
  endCol : Nat
  deriving DecidableEq, Repr, Inhabited

namespace Span

/-- The position lies at or after the first position and at or before the last one. -/
def contains (s : Span) (p : Position) : Bool :=
  (decide (s.startLine < p.line) || (p.line == s.startLine && decide (s.startCol ≤ p.col))) &&
    (decide (p.line < s.endLine) || (p.line == s.endLine && decide (p.col ≤ s.endCol)))

/-- Number of bytes covered; zero when the end does not lie after the start. -/
def length (s : Span) : Nat := s.endByte - s.startByte

/-- A span that covers no byte. -/
def isEmpty (s : Span) : Bool := s.length == 0

/-- The place where a span begins, as `line:column`. -/
def text (s : Span) : String := toString s.startLine ++ ":" ++ toString s.startCol

end Span

end Hollow
