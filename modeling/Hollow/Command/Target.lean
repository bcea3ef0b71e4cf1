import Hollow.Failure
import Hollow.Text.DecimalDigit

/-!
# Positions on the command line

A position is written `FILE:LINE:COL`.  The file may hold colons itself, but no line end; line and
column are decimal numbers from one on.
-/

namespace Hollow

/-- A position in a file. -/
structure Target where
  file : String
  position : Position
  deriving DecidableEq, Repr

/-- Read a number digit by digit.  A digit of another script is refused, and so is a number that
does not fit 64 bits. -/
def readNumber (value : Nat) : List Char → Except Failure Nat
  | [] => .ok value
  | c :: cs =>
    if !c.isDigit then .error .invalidDigit
    else
      let next := value * 10 + (c.toNat - '0'.toNat)
      if UInt64.size ≤ next then .error .numberTooLarge else readNumber next cs

/-- Cut digits and the colon before them from the end of a text, given backwards.  Gives the
digits in reading order. -/
def cutNumber (backwards : List Char) : Option (List Char × List Char) :=
  let digits := backwards.takeWhile isDecimalDigit
  match digits, backwards.drop digits.length with
  | _ :: _, ':' :: rest => some (digits.reverse, rest)
  | _, _ => none

namespace Target

/-- The parts of a position: file, line and column. -/
def split (arg : String) : Option (String × List Char × List Char) :=
  match cutNumber arg.toList.reverse with
  | none => none
  | some (col, beforeCol) =>
    match cutNumber beforeCol with
    | none => none
    | some (line, file) =>
      if file.isEmpty || file.contains '\n' then none
      else some (String.ofList file.reverse, line, col)

/-- Read a position. -/
def parse (arg : String) : Except Failure Target :=
  match split arg with
  | none => .error (.invalidPosition arg)
  | some (file, lineDigits, colDigits) =>
    match readNumber 0 lineDigits with
    | .error failure => .error failure
    | .ok line =>
      match readNumber 0 colDigits with
      | .error failure => .error failure
      | .ok col =>
        if line = 0 ∨ col = 0 then .error (.positionNotPositive arg) else .ok ⟨file, ⟨line, col⟩⟩

end Target

end Hollow
