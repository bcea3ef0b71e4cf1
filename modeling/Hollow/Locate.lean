import Hollow.Report

/-!
# The empty declaration at a cursor

A verdict claims the positions of its body, or of the whole declaration when no body span is
known.  The innermost empty verdict whose own span and all enclosing spans contain the position
wins.  A body without extent also claims the rest of its header line and the line below, where
the body would be typed; containment beats that adjacency.
-/

namespace Hollow

/-- The span in which a declaration answers for a position. -/
def DeclarationRef.effectiveSpan (r : DeclarationRef) : Span := r.bodySpan.getD r.span

namespace Verdict

mutual

/-- The innermost empty verdict, of this one and those nested in it, whose span and all
enclosing spans contain the position. -/
def innermost (p : Position) : Verdict → Option Verdict
  | ⟨declaration, isEmpty, reason, children⟩ =>
    if declaration.effectiveSpan.contains p then
      (innermostLast p children).or
        (if isEmpty then some ⟨declaration, isEmpty, reason, children⟩ else none)
    else
      none

/-- The answer of the last verdict of a list that has one. -/
def innermostLast (p : Position) : List Verdict → Option Verdict
  | [] => none
  | v :: vs => (innermostLast p vs).or (innermost p v)

end

/-- The verdict is empty, its body has no extent, and the position lies behind the body on the
same line or anywhere on the next one. -/
def claimsNext (p : Position) (v : Verdict) : Bool :=
  v.isEmpty &&
    match v.declaration.bodySpan with
    | none => false
    | some body =>
      body.isEmpty && (p.line == body.endLine + 1 || (p.line == body.endLine && decide (body.endCol < p.col)))

end Verdict

/-- The empty declaration at a position, if there is one. -/
def Report.locateEmpty (r : Report) (p : Position) : Option Verdict :=
  (Verdict.innermostLast p r.verdicts).or ((r.allVerdicts.filter (·.claimsNext p)).getLast?)

end Hollow
