import Hollow.Declaration
import Hollow.Text.Blank
import Hollow.Tree

/-!
# Grammars

How the syntax trees of one language map to declarations: which nodes are declarations, where
their names and bodies are, and what the statements of a body amount to.  A `Grammar` is plain
data, so that a language is described by a table and nothing else.
-/

namespace Hollow

/-- Where the name of a declaration is found. -/
inductive NameSource where
  /-- In a field of the node. -/
  | field (name : String)
  /-- At the end of a chain of declarators. -/
  | declarator
  /-- In the variable or property that the expression is bound to. -/
  | binding
  /-- Nowhere. -/
  | anonymous
  deriving DecidableEq, Repr

/-- Which kind of declaration a kind of node stands for. -/
structure Rule where
  nodeKind : String
  kind : Kind
  name : NameSource
  deriving DecidableEq, Repr

/-- Rules for kinds of node that have their name in the field `name`. -/
def Rule.named (kind : Kind) (nodeKinds : List String) : List Rule :=
  nodeKinds.map (⟨·, kind, .field "name"⟩)

/-- Rules for kinds of node that are lambdas, named by what they are bound to. -/
def Rule.lambdas (nodeKinds : List String) : List Rule := nodeKinds.map (⟨·, .lambda, .binding⟩)

/-- A condition under which a named node is looked at. -/
inductive Pattern where
  /-- Every node of a kind. -/
  | kind (kind : String)
  /-- A node of a kind in which a field is filled by a node of another kind. -/
  | withField (kind field child : String)
  /-- A node of a kind with a child of another kind. -/
  | withChild (kind child : String)
  /-- A node of a kind directly under one of another kind. -/
  | under (parent kind : String)
  deriving DecidableEq, Repr

/-- Whether a site meets a pattern.  Only named nodes do. -/
def Pattern.matches (p : Pattern) (s : Site) : Bool :=
  s.node.isNamed &&
    match p with
    | .kind k => s.node.kind == k
    | .withField k f j =>
      s.node.kind == k && s.node.namedChildren.any fun c => c.kind == j && c.field == some f
    | .withChild k j => s.node.kind == k && s.node.namedChildren.any (·.kind == j)
    | .under k j => s.node.kind == j && (s.parent?.any fun n => n.isNamed && n.kind == k)

/-- Where the body of a declaration is found. -/
inductive BodySource where
  /-- In the grammar's body field. -/
  | field
  /-- The node is its own body. -/
  | itself
  /-- The first named child of a kind. -/
  | child (kind : String)
  /-- In the body field, or else the last named child, if it begins after the node does. -/
  | fieldOrLast
  deriving DecidableEq, Repr

/-- The table of a language. -/
structure Grammar where
  rules : List Rule
  /-- Nodes that are declarations. -/
  declarations : List Pattern
  /-- Nodes that hold code but stand for no kind of declaration. -/
  unsupported : List Pattern := []
  bodyField : String := "body"
  /-- Kinds of node with a body elsewhere than in the body field. -/
  bodySources : List (String × BodySource) := []
  /-- Kinds of body whose children are statements. -/
  blockKinds : List String
  /-- Nodes inside a block that only group statements. -/
  containers : List String := []
  /-- Punctuation that belongs to the block and is no statement. -/
  delimiters : List String
  commentKinds : List String
  controlFlowKinds : List String
  localDeclarationKinds : List String
  expressionKinds : List String := []
  noOpKinds : List String := []
  /-- What an expression statement amounts to when its only named child is of a given kind. -/
  soleExpressions : List (String × Category) := []
  /-- The parents that name a lambda, and the field that holds the name. -/
  lambdaBindings : List (String × String) := []
  /-- Names of methods that denote a constructor. -/
  constructorNames : List String := []
  /-- A method with the name of its class is a constructor. -/
  classNamedConstructors : Bool := false
  /-- A function with a qualified name is a member defined outside of its class. -/
  qualifiedMembers : Bool := false
  deriving Repr

/-- The kind of node that holds a single expression. -/
def expressionStatement : String := "expression_statement"

namespace Grammar

/-- The rule for a kind of node. -/
def ruleFor (g : Grammar) (nodeKind : String) : Option Rule :=
  g.rules.find? (·.nodeKind == nodeKind)

/-! ## Bodies and statements -/

/-- The node that holds the statements or members of a declaration. -/
def bodyNode (g : Grammar) (n : Node) : Option Node :=
  match (g.bodySources.lookup n.kind).getD .field with
  | .field => n.childByField g.bodyField
  | .itself => some n
  | .child kind => n.childOfKind kind
  | .fieldOrLast =>
    (n.childByField g.bodyField).or
      (n.namedChildren.getLast?.filter fun last => decide (n.startByte < last.startByte))

/-- The category of an expression statement with a single named child that the table knows. -/
def soleCategory (g : Grammar) (n : Node) : Option Category :=
  if n.kind == expressionStatement then
    match n.namedChildren with
    | [inner] => g.soleExpressions.lookup inner.kind
    | _ => none
  else none

/-- The category of a statement by its kind and text; none for punctuation. -/
def categoryOf (g : Grammar) (source : Source) (n : Node) : Option Category :=
  if g.delimiters.contains n.kind then none
  else if g.commentKinds.contains n.kind then some .comment
  else if n.isMissing || isBlankText (n.text source) then some .whitespace
  else if g.noOpKinds.contains n.kind then some .noOp
  else if g.controlFlowKinds.contains n.kind then some .controlFlow
  else if g.localDeclarationKinds.contains n.kind then some .declaration
  else if n.kind == expressionStatement then
    match n.namedChildren with
    | [] => some .noOp
    | inner :: _ =>
      if g.controlFlowKinds.contains inner.kind then some .controlFlow else some .expression
  else if g.expressionKinds.contains n.kind then some .expression
  else some .other

/-- The statement that a node inside a block stands for. -/
def statement? (g : Grammar) (source : Source) (n : Node) : Option Statement :=
  ((g.soleCategory n).or (g.categoryOf source n)).map fun category =>
    ⟨category, n.kind, n.span source⟩

mutual

/-- The statements of one child of a block; a container contributes those of its children. -/
def statementsOf (g : Grammar) (source : Source) : Node → List Statement
  | ⟨kind, field, startByte, endByte, isNamed, isMissing, hasError, children⟩ =>
    if g.containers.contains kind then statementsOfAll g source children
    else (g.statement? source
      ⟨kind, field, startByte, endByte, isNamed, isMissing, hasError, children⟩).toList

/-- The statements of the children of a block. -/
def statementsOfAll (g : Grammar) (source : Source) : List Node → List Statement
  | [] => []
  | n :: ns => statementsOf g source n ++ statementsOfAll g source ns

end

/-- The body of a callable: the statements of a block, or a single expression.  A signature has
none. -/
def body (g : Grammar) (source : Source) (n : Node) : Option Body :=
  (g.bodyNode n).map fun b =>
    { span := some (b.span source)
      statements :=
        if g.blockKinds.contains b.kind then g.statementsOfAll source b.children
        else [⟨.expression, b.kind, b.span source⟩] }

/-- What a class keeps of its member block: the span. -/
def memberBlock (g : Grammar) (source : Source) (n : Node) : Option Body :=
  (g.bodyNode n).map fun b => { span := some (b.span source), statements := [] }

/-! ## Kinds -/

/-- Functions directly inside a class are methods, those with a constructor's name
constructors. -/
def memberKind (g : Grammar) (kind : Kind) (name enclosingClass : Option String) : Kind :=
  match kind, enclosingClass with
  | .function, some className | .method, some className =>
    if name.any fun n => g.constructorNames.contains n || (g.classNamedConstructors && n == className)
    then .constructor else .method
  | _, _ => kind

/-- Split a name at each pair of colons. -/
def splitQualified : List Char → List (List Char)
  | ':' :: ':' :: cs => [] :: splitQualified cs
  | c :: cs =>
    match splitQualified cs with
    | [] => [[c]]
    | segment :: segments => (c :: segment) :: segments
  | [] => [[]]

/-- The segments of a qualified name from the last one to the first, each read backwards.  Colons
pair up from the end of the name. -/
def backwardSegments (name : String) : List (List Char) := splitQualified name.toList.reverse

/-- The kind of a declaration, once its name and the class directly around it are known.  Outside
of classes, a function with a qualified name is a constructor when the last two segments agree,
and a method otherwise. -/
def refineKind (g : Grammar) (kind : Kind) (name enclosingClass : Option String) : Kind :=
  match g.qualifiedMembers, kind, enclosingClass, name.map backwardSegments with
  | true, .function, none, some (member :: owner :: _) =>
    if !owner.isEmpty && member == owner then .constructor else .method
  | _, _, _, _ => g.memberKind kind name enclosingClass

end Grammar

end Hollow
