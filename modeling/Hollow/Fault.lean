import Hollow.Span

/-!
# Faults

What can go wrong with a single declaration or unit while it is built or judged.  A fault is
attached to the declaration it concerns and reported beside the verdicts of the others.
-/

namespace Hollow

/-- Why a declaration or a unit could not be judged. -/
inductive Fault where
  /-- A construct that stands for no kind of declaration. -/
  | unsupported (nodeKind : String) (span : Span)
  /-- A declaration whose parts contradict its kind, such as a class without a member list. -/
  | malformed (id : Nat) (detail : String)
  /-- Declarations were required and there were none. -/
  | emptyInput
  deriving DecidableEq, Repr

namespace Fault

/-- Short identifier of the kind of fault. -/
def code : Fault → String
  | .unsupported .. => "unsupported_construct"
  | .malformed .. => "malformed_declaration"
  | .emptyInput => "empty_input"

/-- The sentence shown to people. -/
def message : Fault → String
  | .unsupported nodeKind span => "unsupported construct `" ++ nodeKind ++ "` at " ++ span.text
  | .malformed id detail => "malformed declaration #" ++ toString id ++ ": " ++ detail
  | .emptyInput => "no declarations to classify"

end Fault

end Hollow
