/-!
# JSON values

The values that a JSON text denotes.  Fields keep the order in which they are written.  Natural
numbers are kept apart from all other numbers, because they are the only ones that data files
hold.  A literal may also be grammatical and yet denote nothing (half of a surrogate pair, a
number beyond every floating-point range): such a literal does no harm where it is skipped.
-/

namespace Hollow.Json

/-- What is wrong with a JSON text. -/
inductive Problem where
  /-- The text ends too early. -/
  | truncated
  /-- The text is not JSON. -/
  | illFormed
  /-- The text is JSON, of another shape than the one expected. -/
  | mistyped
  deriving DecidableEq, Repr

/-- A JSON value. -/
inductive Value where
  | null
  | bool (value : Bool)
  /-- A number written with digits only. -/
  | natural (value : Nat)
  /-- Any other number: negative, with a fraction or with an exponent. -/
  | decimal (literal : String)
  | string (value : String)
  /-- A literal that denotes no value. -/
  | flawed
  | array (elements : List Value)
  | object (fields : List (String × Value))
  deriving Repr, Inhabited

namespace Value

mutual

/-- How many arrays and objects stand inside each other, this value included. -/
def depth : Value → Nat
  | .array elements => depthElements elements + 1
  | .object fields => depthFields fields + 1
  | _ => 0

/-- The greatest depth among elements. -/
def depthElements : List Value → Nat
  | [] => 0
  | v :: vs => max (depth v) (depthElements vs)

/-- The greatest depth among the values of fields. -/
def depthFields : List (String × Value) → Nat
  | [] => 0
  | (_, v) :: fs => max (depth v) (depthFields fs)

end

mutual

/-- No literal anywhere in the value is flawed. -/
def isSound : Value → Bool
  | .flawed => false
  | .array elements => soundElements elements
  | .object fields => soundFields fields
  | _ => true

/-- No literal among elements is flawed. -/
def soundElements : List Value → Bool
  | [] => true
  | v :: vs => isSound v && soundElements vs

/-- No literal among the values of fields is flawed. -/
def soundFields : List (String × Value) → Bool
  | [] => true
  | (_, v) :: fs => isSound v && soundFields fs

end

/-- Arrays and objects. -/
def isContainer : Value → Bool
  | .array _ | .object _ => true
  | _ => false

end Value

end Hollow.Json
