import Hollow.Declaration

/-!
# Verdicts

A body is judged on its immediate statements only: comments and whitespace are set aside, and
what remains decides.  Nested blocks are never inspected, so an `if` is content whatever it
holds.  A class is judged by its members: those without a body have no say, and the class is
empty when all the others are.

* `evaluate` judges a statement sequence.
* `classify` judges a declaration with everything nested in it; it fails on the first
  declaration, depth-first, whose parts contradict its kind.
-/

namespace Hollow

/-- Why a declaration was judged the way it was. -/
inductive Reason where
  /-- The body or the member list has no entry. -/
  | noStatements
  /-- There are entries, all of them comments or whitespace. -/
  | onlyCommentsOrWhitespace
  /-- Besides comments and whitespace there is only filler. -/
  | onlyNoOps
  /-- A class whose members with a body are all empty. -/
  | onlyEmptyMembers
  /-- At least one significant statement or one non-empty member. -/
  | hasContent
  /-- A signature: there is nothing to judge. -/
  | noBody
  deriving DecidableEq, Repr

namespace Reason

/-- The reason's name in data files. -/
def name : Reason → String
  | .noStatements => "no_statements"
  | .onlyCommentsOrWhitespace => "only_comments_or_whitespace"
  | .onlyNoOps => "only_no_ops"
  | .onlyEmptyMembers => "only_empty_members"
  | .hasContent => "has_content"
  | .noBody => "no_body"

/-- The reason as shown to people. -/
def description : Reason → String
  | .noStatements => "no statements"
  | .onlyCommentsOrWhitespace => "only comments or whitespace"
  | .onlyNoOps => "only no-op statements"
  | .onlyEmptyMembers => "all members are empty"
  | .hasContent => "has content"
  | .noBody => "no body (signature only)"

/-- All reasons, in the order in which they are declared. -/
def all : List Reason :=
  [.noStatements, .onlyCommentsOrWhitespace, .onlyNoOps, .onlyEmptyMembers, .hasContent, .noBody]

end Reason

/-! ## Bodies -/

/-- The outcome for one body or member list. -/
structure Evaluation where
  isEmpty : Bool
  reason : Reason
  deriving DecidableEq, Repr

/-- Whether a statement of this category counts as content.  Filler counts unless no-ops are
taken as empty. -/
def Category.isSignificant (noOpsAreEmpty : Bool) (c : Category) : Bool :=
  !c.isTrivia && !(noOpsAreEmpty && c == .noOp)

/-- Judge a statement sequence. -/
def evaluate (noOpsAreEmpty : Bool) (statements : List Statement) : Evaluation :=
  if statements.isEmpty then
    ⟨true, .noStatements⟩
  else if statements.any (·.category.isSignificant noOpsAreEmpty) then
    ⟨false, .hasContent⟩
  else if statements.any (·.category == .noOp) then
    ⟨true, .onlyNoOps⟩
  else
    ⟨true, .onlyCommentsOrWhitespace⟩

/-! ## Declarations -/

/-- What a verdict keeps of the declaration it is about. -/
structure DeclarationRef where
  id : Nat
  kind : Kind
  name : Option String
  span : Span
  bodySpan : Option Span
  deriving DecidableEq, Repr

/-- The reference to a declaration. -/
def Declaration.ref (d : Declaration) : DeclarationRef :=
  ⟨d.id, d.kind, d.name, d.span, d.bodySpan⟩

/-- The name to show. -/
def DeclarationRef.displayName (r : DeclarationRef) : String := r.name.getD anonymousName

/-- The judgement on one declaration. -/
structure Verdict where
  declaration : DeclarationRef
  isEmpty : Bool
  reason : Reason
  /-- Verdicts on the members, in member order. -/
  children : List Verdict
  deriving Repr

namespace Verdict

/-- Signatures are neither empty nor non-empty. -/
def isApplicable (v : Verdict) : Bool := v.reason != .noBody

mutual

/-- The verdict and all nested verdicts, depth-first. -/
def walk : Verdict → List Verdict
  | ⟨declaration, isEmpty, reason, children⟩ =>
    ⟨declaration, isEmpty, reason, children⟩ :: walkAll children

/-- Several verdicts with all that is nested in them, depth-first. -/
def walkAll : List Verdict → List Verdict
  | [] => []
  | v :: vs => walk v ++ walkAll vs

end

end Verdict

/-- The outcome for a class, from the verdicts on its members. -/
def memberOutcome (children : List Verdict) : Evaluation :=
  if children.isEmpty then
    ⟨true, .noStatements⟩
  else if !children.any Verdict.isApplicable then
    ⟨false, .noBody⟩
  else if children.all (fun v => !v.isApplicable || v.isEmpty) then
    ⟨true, .onlyEmptyMembers⟩
  else
    ⟨false, .hasContent⟩

/-- The outcome for a callable: a signature has nothing to judge. -/
def bodyOutcome (noOpsAreEmpty : Bool) : Option Body → Evaluation
  | none => ⟨false, .noBody⟩
  | some body => evaluate noOpsAreEmpty body.statements

/-- The complaint about a callable that has members. -/
def Declaration.strayMembers (d : Declaration) : Fault :=
  .malformed d.id (d.kind.name ++ " `" ++ d.displayName ++ "` carries a member list")

/-- The complaint about a class whose member list is absent. -/
def Declaration.missingMembers (d : Declaration) : Fault :=
  .malformed d.id ("class `" ++ d.displayName ++ "` has no member list")

mutual

/-- Judge a declaration and, for a class, all of its members. -/
def classify (noOpsAreEmpty : Bool) : Declaration → Except Fault Verdict
  | ⟨id, kind, name, span, body, members⟩ =>
    let d : Declaration := ⟨id, kind, name, span, body, members⟩
    if kind.isCallable then
      if members.isSome then .error d.strayMembers
      else
        let outcome := bodyOutcome noOpsAreEmpty body
        .ok ⟨d.ref, outcome.isEmpty, outcome.reason, []⟩
    else match classifyMembers noOpsAreEmpty members with
      | none => .error d.missingMembers
      | some (.error fault) => .error fault
      | some (.ok children) =>
        let outcome := memberOutcome children
        .ok ⟨d.ref, outcome.isEmpty, outcome.reason, children⟩

/-- Judge a member list, which may be absent. -/
def classifyMembers (noOpsAreEmpty : Bool) :
    Option (List Declaration) → Option (Except Fault (List Verdict))
  | none => none
  | some members => some (classifyAll noOpsAreEmpty members)

/-- Judge declarations in order; the first that fails decides. -/
def classifyAll (noOpsAreEmpty : Bool) : List Declaration → Except Fault (List Verdict)
  | [] => .ok []
  | d :: ds =>
    match classify noOpsAreEmpty d with
    | .error fault => .error fault
    | .ok verdict =>
      match classifyAll noOpsAreEmpty ds with
      | .error fault => .error fault
      | .ok verdicts => .ok (verdict :: verdicts)

end

end Hollow
