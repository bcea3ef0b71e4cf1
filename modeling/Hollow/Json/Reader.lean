import Hollow.Json.Parser

/-!
# Reading the content of JSON values

A `Reader` turns a value into data.  It knows how many further arrays and objects may be opened
below the place where it reads, and refuses a text that nests deeper; parts that nobody reads do
not count.

A record is an object with known fields, others being skipped, or an array of the field values
in order.  A tagged object is read whole before its tag is known: from there on every part of it
counts for the nesting, and all disagreements are disagreements about the shape.
-/

namespace Hollow.Json

/-- Where a value comes from: straight from the text, or out of a tagged object that was read
whole. -/
inductive Source where
  | direct
  | held
  deriving DecidableEq, Repr

/-- Reads a value, given where it comes from and how many further containers may be opened. -/
abbrev Reader (α : Type) := Source → Nat → Value → Except Problem α

/-- The greatest number of arrays and objects that may stand inside each other. -/
def nestingLimit : Nat := 127

/-- What to say of a value of an unexpected shape. -/
def unexpected : Value → Problem
  | .flawed => .illFormed
  | _ => .mistyped

/-! ## Scalars -/

/-- A natural number below a bound. -/
def naturalBelow (bound : Nat) : Reader Nat
  | _, _, .natural n => if n < bound then .ok n else .error .mistyped
  | _, _, v => .error (unexpected v)

/-- A number that fits 64 bits. -/
def size : Reader Nat := naturalBelow UInt64.size

/-- An identifier that fits 32 bits. -/
def identifier : Reader Nat := naturalBelow UInt32.size

/-- A string. -/
def text : Reader String
  | _, _, .string s => .ok s
  | _, _, v => .error (unexpected v)

/-- A truth value. -/
def flag : Reader Bool
  | _, _, .bool b => .ok b
  | _, _, v => .error (unexpected v)

/-- A value that may be absent, which `null` says. -/
def optional {α : Type} (read : Reader α) : Reader (Option α)
  | _, _, .null => .ok none
  | source, room, v => (read source room v).map some

/-- The alternative of a name. -/
def named? {α : Type} (alternatives : List (String × α)) (name : String) : Except Problem α :=
  match alternatives.lookup name with
  | some a => .ok a
  | none => .error .mistyped

/-- One of several named alternatives, given by its name, or as an object whose only field has
that name and holds nothing. -/
def alternative {α : Type} (alternatives : List (String × α)) : Reader α
  | _, _, .string s => named? alternatives s
  | _, 0, .object _ => .error .illFormed
  | _, _ + 1, .object [(name, .null)] => named? alternatives name
  | .held, _ + 1, .object [(name, .object [])] => named? alternatives name
  | _, _ + 1, .object [(_, v)] => .error (unexpected v)
  | .held, _, _ => .error .mistyped
  | .direct, _, _ => .error .illFormed

/-! ## Containers -/

/-- A value that is not a container where only a container would do, or one too many inside
the others. -/
def closed (v : Value) : Problem := if v.isContainer then .illFormed else unexpected v

/-- Read values in order; the first that fails decides. -/
def readAll {α : Type} (read : Value → Except Problem α) : List Value → Except Problem (List α)
  | [] => .ok []
  | v :: vs =>
    match read v with
    | .error p => .error p
    | .ok a => (readAll read vs).map (a :: ·)

/-- An array of values of one kind. -/
def listOf {α : Type} (read : Reader α) : Reader (List α)
  | source, room + 1, .array vs => readAll (read source room) vs
  | _, 0, .array _ => .error .illFormed
  | _, _, v => .error (unexpected v)

/-- The known fields of a record, each at most once. -/
abbrev Fields := List (String × Value)

/-- Keep the known fields; a known field that is given twice is refused. -/
def knownFields (names : List String) (fields : Fields) : Except Problem Fields :=
  let known := fields.filter (fun f => names.contains f.1)
  if (known.map (·.1)).Nodup then .ok known else .error .mistyped

/-- A record: an object with known fields, or an array of their values in order.  `build` reads
the fields inside the opened container. -/
def record {α : Type} (names : List String) (build : Source → Nat → Fields → Except Problem α) :
    Reader α
  | source, room + 1, .object fields =>
    match knownFields names fields with
    | .error p => .error p
    | .ok known => build source room known
  | source, room + 1, .array vs =>
    match build source room (names.zip vs) with
    | .error p => .error p
    | .ok a =>
      if vs.length ≤ names.length then .ok a
      else match source with
        | .direct => .error .illFormed
        | .held => .error .mistyped
  | _, _, v => .error (closed v)

/-- A field that must be present. -/
def required {α : Type} (fields : Fields) (name : String) (read : Value → Except Problem α) :
    Except Problem α :=
  match fields.lookup name with
  | some v => read v
  | none => .error .mistyped

/-- A field with a value to fall back on when it is missing. -/
def orElse {α : Type} (fields : Fields) (name : String) (fallback : α)
    (read : Value → Except Problem α) : Except Problem α :=
  match fields.lookup name with
  | some v => read v
  | none => .ok fallback

/-- The tag of an object that was read whole may also be the number of an alternative. -/
def tagName (tags : List String) : Source → Value → Except Problem String
  | _, .string s => .ok s
  | .held, .natural n =>
    match tags.drop n with
    | t :: _ => .ok t
    | [] => .error .mistyped
  | _, v => .error (unexpected v)

/-- An object in which one field tells what the others mean.  `build` gets the tag and reads the
object without it. -/
def tagged {α : Type} (tag : String) (tags : List String) (build : String → Reader α) : Reader α
  | source, room + 1, .object fields =>
    match fields.filter (·.1 == tag) with
    | [(_, v)] =>
      let rest := fields.filter (·.1 != tag)
      if Value.depthFields rest ≤ room ∧ Value.soundFields rest then
        match tagName tags source v with
        | .error p => .error p
        | .ok name => build name .held (room + 1) (.object rest)
      else .error .illFormed
    | _ => .error .mistyped
  | _, _, .array _ => .error .mistyped
  | _, _, v => .error (closed v)

/-! ## Texts -/

/-- Read the content of a JSON text. -/
def decode {α : Type} (read : Reader α) (text : String) : Except Problem α :=
  match parse text with
  | .error p => .error p
  | .ok v => read .direct nestingLimit v

end Hollow.Json
