import Hollow.Grammar

/-!
# From syntax trees to declarations

The nodes that a grammar asks for are taken in source order, outer ones before those inside them.
Each becomes a declaration with a name, a kind and a body, attached to the nearest class around
it, or else to the unit itself.  A construct that stands for no kind of declaration is skipped
with a diagnostic, and what lies inside it is attached as if it were not there; or it ends the
work, if the policy says so.

* `candidates` finds the nodes and puts them in order.
* `place` turns one of them into a declaration, given those placed before it.
* `forest` builds member lists from the flat sequence.
* `canonicalize` is the whole way from a tree to a unit.
-/

namespace Hollow

/-- What to do about a construct that stands for no kind of declaration. -/
inductive UnsupportedPolicy where
  | skip
  | abort
  deriving DecidableEq, Repr

/-! ## Candidates -/

/-- A node that the grammar asks for. -/
structure Candidate where
  site : Site
  /-- False for a construct that the grammar declares unsupported. -/
  isDeclaration : Bool
  deriving Repr

/-- The order of candidates: by start, and of those with one start the longer first. -/
def Candidate.precedes (a b : Candidate) : Bool :=
  decide (a.site.node.startByte < b.site.node.startByte) ||
    (a.site.node.startByte == b.site.node.startByte &&
      decide (b.site.node.endByte ≤ a.site.node.endByte))

/-- The grammar takes a site for a declaration. -/
def Grammar.declares (g : Grammar) (s : Site) : Bool := g.declarations.any (·.matches s)

/-- Whether and as what the grammar asks for a site. -/
def Grammar.candidate? (g : Grammar) (s : Site) : Option Candidate :=
  if g.declares s then some ⟨s, true⟩
  else if g.unsupported.any (·.matches s) then some ⟨s, false⟩
  else none

/-- The candidates of a tree in order; those that the order does not tell apart stay in
pre-order. -/
def Grammar.candidates (g : Grammar) (root : Node) : List Candidate :=
  (root.sites.filterMap g.candidate?).mergeSort Candidate.precedes

/-- The rule for a candidate; an unsupported construct has none. -/
def Grammar.ruleOf (g : Grammar) (c : Candidate) : Option Rule :=
  if c.isDeclaration then g.ruleFor c.site.node.kind else none

/-! ## Names -/

/-- Whether a kind of node is one of the declarators. -/
def isDeclaratorKind (kind : String) : Bool := "declarator".toList.isSuffixOf kind.toList

namespace Node

mutual

/-- The node at the end of a chain of declarators.  A declarator without a declarator field holds
the next node as its first named child. -/
def declaratorEnd : Node → Node
  | ⟨kind, field, startByte, endByte, isNamed, isMissing, hasError, children⟩ =>
    let node := ⟨kind, field, startByte, endByte, isNamed, isMissing, hasError, children⟩
    match declaratorInField children with
    | some last => last
    | none => if isDeclaratorKind kind then (declaratorInNamed children).getD node else node

/-- The end of the chain that goes on in the declarator field. -/
def declaratorInField : List Node → Option Node
  | [] => none
  | n :: ns => if n.field == some "declarator" then some (declaratorEnd n) else declaratorInField ns

/-- The end of the chain that goes on in the first named child. -/
def declaratorInNamed : List Node → Option Node
  | [] => none
  | n :: ns => if n.isNamed then some (declaratorEnd n) else declaratorInNamed ns

end

end Node

/-- Nodes that may stand between a lambda and the binding that names it. -/
def bindingWrappers : List String := ["parenthesized_expression", "expression_list"]

/-- The node that a lambda is bound to.  It has to end before the bound expression begins, or the
lambda would be a part of the target. -/
def Site.bindingTarget (bindings : List (String × String)) (s : Site) : Option Node :=
  let above := s.ancestors.map (·.2)
  let wrappers := above.takeWhile fun n => bindingWrappers.contains n.kind
  let bound := wrappers.getLast?.getD s.node
  match above.drop wrappers.length with
  | [] => none
  | parent :: _ =>
    ((bindings.lookup parent.kind).bind parent.childByField).filter fun target =>
      decide (target.endByte ≤ bound.startByte)

/-- The node whose text is the name of a declaration. -/
def Grammar.nameNode (g : Grammar) (s : Site) : NameSource → Option Node
  | .field name => s.node.childByField name
  | .declarator => (s.node.childByField "declarator").map Node.declaratorEnd
  | .binding => s.bindingTarget g.lambdaBindings
  | .anonymous => none

/-- The name of a declaration; an empty text is no name. -/
def Grammar.declarationName (g : Grammar) (source : Source) (s : Site) (from_ : NameSource) :
    Option String :=
  ((g.nameNode s from_).map (·.text source)).filter (· != "")

/-! ## Placing declarations -/

/-- A declaration whose members have yet to be filled in. -/
structure Placed where
  /-- The number of its node. -/
  number : Nat
  /-- The number of declarations placed before it. -/
  index : Nat
  declaration : Declaration
  /-- The index of the class that it is a member of. -/
  parent : Option Nat
  deriving Repr

/-- The nearest ancestor that was placed and meets a condition. -/
def Site.nearest (s : Site) (placed : List Placed) (ok : Placed → Bool) : Option Placed :=
  s.ancestors.findSome? fun a => placed.find? fun p => p.number == a.1 && ok p

/-- Placed as a class. -/
def Placed.isClass (p : Placed) : Bool := p.declaration.kind == .classLike

/-- The declaration for a site, given those placed before it.  Identifiers have 32 bits. -/
def Grammar.place (g : Grammar) (source : Source) (placed : List Placed) (s : Site) (rule : Rule) :
    Placed :=
  let owner := s.nearest placed Placed.isClass
  let className := ((s.nearest placed fun _ => true).filter Placed.isClass).map fun p =>
    p.declaration.name.getD ""
  let name := g.declarationName source s rule.name
  let kind := g.refineKind rule.kind name className
  { number := s.number
    index := placed.length
    parent := owner.map (·.index)
    declaration :=
      { id := placed.length % UInt32.size, kind, name, span := s.node.span source
        body := if kind = .classLike then g.memberBlock source s.node else g.body source s.node
        members := if kind = .classLike then some [] else none } }

/-- What has been made of the candidates so far. -/
structure Progress where
  placed : List Placed := []
  skipped : List Fault := []
  deriving Repr

/-- Deal with one candidate. -/
def Grammar.step (g : Grammar) (policy : UnsupportedPolicy) (source : Source) (p : Progress)
    (c : Candidate) : Except Fault Progress :=
  match g.ruleOf c with
  | some rule => .ok { p with placed := p.placed ++ [g.place source p.placed c.site rule] }
  | none =>
    let fault := Fault.unsupported c.site.node.kind (c.site.node.span source)
    match policy with
    | .abort => .error fault
    | .skip => .ok { p with skipped := p.skipped ++ [fault] }

/-- Deal with candidates in order. -/
def Grammar.placeAll (g : Grammar) (policy : UnsupportedPolicy) (source : Source) :
    Progress → List Candidate → Except Fault Progress
  | p, [] => .ok p
  | p, c :: cs =>
    match g.step policy source p c with
    | .error fault => .error fault
    | .ok next => placeAll g policy source next cs

/-- The declarations that belong to a class, or to the unit, with their members.  A class comes
before its members, so they are all found behind it. -/
def forest (owner : Option Nat) : List Placed → List Declaration
  | [] => []
  | p :: rest =>
    if p.parent = owner then
      { p.declaration with
        members := p.declaration.members.map fun _ => forest (some p.index) rest } ::
        forest owner rest
    else forest owner rest

/-- The unit that a syntax tree describes. -/
def Grammar.canonicalize (g : Grammar) (language : String) (policy : UnsupportedPolicy)
    (path : String) (source : Source) (root : Node) : Except Fault SourceUnit :=
  match g.placeAll policy source {} (g.candidates root) with
  | .error fault => .error fault
  | .ok progress =>
    .ok { path, language, declarations := forest none progress.placed
          diagnostics := progress.skipped, hasParseErrors := root.hasError }

end Hollow
