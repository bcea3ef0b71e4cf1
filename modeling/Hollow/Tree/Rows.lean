import Hollow.Json.Value
import Hollow.Tree

/-!
# Syntax trees as data

A parser hands over a tree as a list of rows, one per node in pre-order: the row number of the
parent, kind, field, first byte, end byte, and a sum of flags (1 for a named node, 2 for a missing
one, 4 for an error in or below the node).  Since children follow their parent, reading the rows
from the last to the first finds the children of each node ready in front of those of the others.
-/

namespace Hollow

open Json (Value)

/-- One row: the node without its children, and the row number of its parent. -/
structure TreeRow where
  parent : Option Nat
  node : Node
  deriving Repr

/-- Read a row. -/
def TreeRow.ofJson : Value → Option TreeRow
  | .array [parent, .string kind, field, .natural start, .natural stop, .natural flags] =>
    let field := match field with
      | .string name => some name
      | _ => none
    let parent := match parent with
      | .natural n => some n
      | _ => none
    some ⟨parent, ⟨kind, field, start, stop, flags % 2 == 1, flags / 2 % 2 == 1,
      flags / 4 % 2 == 1, []⟩⟩
  | _ => none

/-- The trees that rows describe, from a given row number on; each with the row number of its
parent. -/
def assembleRows (number : Nat) : List TreeRow → List (Option Nat × Node)
  | [] => []
  | row :: rows =>
    let below := assembleRows (number + 1) rows
    let children := (below.takeWhile fun t => t.1 == some number).map (·.2)
    (row.parent, { row.node with children }) :: below.drop children.length

/-- The tree that rows describe. -/
def Node.ofRows (rows : List TreeRow) : Option Node := (assembleRows 0 rows).head?.map (·.2)

/-- Read a tree. -/
def Node.ofJson : Value → Option Node
  | .array rows => (rows.mapM TreeRow.ofJson).bind Node.ofRows
  | _ => none

end Hollow
