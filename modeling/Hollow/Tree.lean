import Hollow.Span
import Hollow.Text.Utf8

/-!
# Syntax trees

The concrete syntax tree of a source text, as a parser delivers it: every node has a kind, a byte
range, the field it fills in its parent, and its children in order; punctuation and keywords are
nodes too, but not named ones.

* `Source.span` turns a byte range into a `Span`: a line ends with a newline byte, and columns
  count bytes.
* `Node.sites` lists the nodes in pre-order, each with its number in that order and its
  ancestors, nearest first.
-/

namespace Hollow

/-! ## Source texts -/

/-- A source text as bytes, not necessarily well-formed text. -/
abbrev Source := List UInt8

namespace Source

/-- The byte that ends a line. -/
def newline : UInt8 := 10

/-- The line of an offset: one more than the number of line ends in front of it. -/
def line (source : Source) (offset : Nat) : Nat := (source.take offset).count newline + 1

/-- The column of an offset: one more than the number of bytes since the last line end. -/
def col (source : Source) (offset : Nat) : Nat :=
  ((source.take offset).reverse.takeWhile (· != newline)).length + 1

/-- The span of a byte range. -/
def span (source : Source) (start stop : Nat) : Span :=
  ⟨start, stop, source.line start, source.col start, source.line stop, source.col stop⟩

/-- The text of a byte range, empty when it is not well-formed. -/
def text (source : Source) (start stop : Nat) : String :=
  (Utf8.decode ((source.drop start).take (stop - start))).getD ""

end Source

/-! ## Nodes -/

/-- A node of a syntax tree. -/
structure Node where
  kind : String
  /-- The field that the node fills in its parent. -/
  field : Option String
  startByte : Nat
  endByte : Nat
  /-- False for punctuation and keywords. -/
  isNamed : Bool
  /-- The parser supplied a node that the text lacks. -/
  isMissing : Bool
  /-- This node or one below it does not follow the grammar. -/
  hasError : Bool
  children : List Node
  deriving Repr, Inhabited

namespace Node

/-- The children that are not mere punctuation. -/
def namedChildren (n : Node) : List Node := n.children.filter (·.isNamed)

/-- The first child that fills a field. -/
def childByField (n : Node) (field : String) : Option Node :=
  n.children.find? (·.field == some field)

/-- The first named child of a kind. -/
def childOfKind (n : Node) (kind : String) : Option Node := n.namedChildren.find? (·.kind == kind)

/-- The span of a node. -/
def span (source : Source) (n : Node) : Span := source.span n.startByte n.endByte

/-- The text of a node. -/
def text (source : Source) (n : Node) : String := source.text n.startByte n.endByte

mutual

/-- Number of nodes of a tree. -/
def size : Node → Nat
  | ⟨_, _, _, _, _, _, _, children⟩ => sizeAll children + 1

/-- Number of nodes of several trees. -/
def sizeAll : List Node → Nat
  | [] => 0
  | n :: ns => size n + sizeAll ns

end

end Node

/-! ## Sites -/

/-- A node in its tree. -/
structure Site where
  /-- The number of the node in the pre-order of its tree. -/
  number : Nat
  node : Node
  /-- The ancestors with their numbers, nearest first. -/
  ancestors : List (Nat × Node)
  deriving Repr

/-- The node directly above. -/
def Site.parent? (s : Site) : Option Node := s.ancestors.head?.map (·.2)

namespace Node

mutual

/-- The sites of a tree below given ancestors, its root having a given number. -/
def sitesFrom (number : Nat) (ancestors : List (Nat × Node)) : Node → List Site
  | ⟨kind, field, startByte, endByte, isNamed, isMissing, hasError, children⟩ =>
    let node := ⟨kind, field, startByte, endByte, isNamed, isMissing, hasError, children⟩
    ⟨number, node, ancestors⟩ :: sitesFromAll (number + 1) ((number, node) :: ancestors) children

/-- The sites of neighbouring trees below given ancestors. -/
def sitesFromAll (number : Nat) (ancestors : List (Nat × Node)) : List Node → List Site
  | [] => []
  | n :: ns => sitesFrom number ancestors n ++ sitesFromAll (number + size n) ancestors ns

end

/-- All sites of a tree, in pre-order. -/
def sites (root : Node) : List Site := sitesFrom 0 [] root

end Node

end Hollow
