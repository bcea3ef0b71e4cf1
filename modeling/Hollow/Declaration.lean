import Hollow.Fault

/-!
# Declarations

The language-neutral tree that every judgement is about: a source unit holds declarations, a
class holds members, and every other declaration is a callable that binds a body of statements.

* `Declaration.walk` lists a declaration and everything nested in it, depth-first.
* `SourceUnit.count` is the number of declarations at any depth.
-/

namespace Hollow

/-- Kinds of declaration. -/
inductive Kind where
  | function
  | method
  | lambda
  | constructor
  /-- A class, or what acts as one: an interface, a trait, an object, a record. -/
  | classLike
  deriving DecidableEq, Repr

namespace Kind

/-- The kind's name in reports. -/
def name : Kind → String
  | .function => "function"
  | .method => "method"
  | .lambda => "lambda"
  | .constructor => "constructor"
  | .classLike => "class"

/-- All kinds, in the order in which they are declared. -/
def all : List Kind := [.function, .method, .lambda, .constructor, .classLike]

/-- Everything except a class binds a body of statements. -/
def isCallable : Kind → Bool
  | .classLike => false
  | _ => true

end Kind

/-- What a single statement of a body amounts to. -/
inductive Category where
  | comment
  | whitespace
  | expression
  | controlFlow
  | declaration
  /-- Filler that the grammar demands: `pass`, a bare `...`, a lone semicolon. -/
  | noOp
  | other
  deriving DecidableEq, Repr

namespace Category

/-- The category's name in data files. -/
def name : Category → String
  | .comment => "comment"
  | .whitespace => "whitespace"
  | .expression => "expression"
  | .controlFlow => "control_flow"
  | .declaration => "declaration"
  | .noOp => "no_op"
  | .other => "other"

/-- All categories, in the order in which they are declared. -/
def all : List Category :=
  [.comment, .whitespace, .expression, .controlFlow, .declaration, .noOp, .other]

/-- Comments and whitespace never carry behaviour. -/
def isTrivia : Category → Bool
  | .comment | .whitespace => true
  | _ => false

end Category

/-- One entry of a body's statement sequence. -/
structure Statement where
  category : Category
  /-- The kind of the syntax node it stands for. -/
  nodeKind : String
  span : Span
  deriving DecidableEq, Repr

/-- The statements that a callable executes. -/
structure Body where
  /-- Span of the body, braces included. -/
  span : Option Span
  statements : List Statement
  deriving DecidableEq, Repr

/-- A function, method, lambda, constructor or class. -/
structure Declaration where
  /-- Identifier, unique within a unit and ascending in source order. -/
  id : Nat
  kind : Kind
  /-- Absent for anonymous declarations. -/
  name : Option String
  span : Span
  /-- For a callable, absence marks a signature without body.  A class keeps the span of its
  member block here; statements found there are never judged. -/
  body : Option Body
  /-- For classes only; absence means that the member list was never filled in. -/
  members : Option (List Declaration)
  deriving Repr

/-- What stands in for a missing name. -/
def anonymousName : String := "<anonymous>"

namespace Declaration

/-- The name to show. -/
def displayName (d : Declaration) : String := d.name.getD anonymousName

/-- Span of the body or member block, if known. -/
def bodySpan (d : Declaration) : Option Span := d.body.bind (·.span)

mutual

/-- The declaration and all nested members, depth-first. -/
def walk : Declaration → List Declaration
  | ⟨id, kind, name, span, body, members⟩ =>
    ⟨id, kind, name, span, body, members⟩ :: walkMembers members

/-- Everything below a member list, which may be absent. -/
def walkMembers : Option (List Declaration) → List Declaration
  | none => []
  | some ds => walkAll ds

/-- Several declarations with all that is nested in them, depth-first. -/
def walkAll : List Declaration → List Declaration
  | [] => []
  | d :: ds => walk d ++ walkAll ds

end

end Declaration

/-- One source file or snippet. -/
structure SourceUnit where
  path : String
  language : String
  /-- Top-level declarations in order of appearance. -/
  declarations : List Declaration
  /-- Constructs that were left out while the unit was built. -/
  diagnostics : List Fault
  hasParseErrors : Bool
  deriving Repr

/-- Number of declarations at any depth. -/
def SourceUnit.count (u : SourceUnit) : Nat := (Declaration.walkAll u.declarations).length

end Hollow
