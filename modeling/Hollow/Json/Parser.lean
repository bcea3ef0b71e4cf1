import Hollow.Json.Value

/-!
# Reading JSON texts

`parse` reads exactly one value with blanks around it.  It tells a text that ends too early from
one that is not JSON, and sets no limit on nesting: limits are for those who read a value's
content.  The functions below take the characters that remain and give back those after what
they have read; the recursion is bounded by an argument that `parse` computes from the length.
-/

namespace Hollow.Json

/-- Blanks between tokens. -/
def isBlank (c : Char) : Bool := c == ' ' || c == '\n' || c == '\t' || c == '\r'

/-- What follows any blanks. -/
def skipBlanks (cs : List Char) : List Char := cs.dropWhile isBlank

/-! ## Strings -/

/-- The value of a hexadecimal digit in either case. -/
def hexValue (c : Char) : Option Nat :=
  if '0' ≤ c ∧ c ≤ '9' then some (c.toNat - 48)
  else if 'a' ≤ c ∧ c ≤ 'f' then some (c.toNat - 87)
  else if 'A' ≤ c ∧ c ≤ 'F' then some (c.toNat - 55)
  else none

/-- Four hexadecimal digits. -/
def hexUnit : List Char → Except Problem (Nat × List Char)
  | a :: b :: c :: d :: rest =>
    match hexValue a, hexValue b, hexValue c, hexValue d with
    | some w, some x, some y, some z => .ok (((w * 16 + x) * 16 + y) * 16 + z, rest)
    | _, _, _, _ => .error .illFormed
  | _ => .error .truncated

/-- The first half of a surrogate pair. -/
def isLeadingHalf (n : Nat) : Bool := decide (0xD800 ≤ n) && decide (n < 0xDC00)

/-- The second half of a surrogate pair. -/
def isTrailingHalf (n : Nat) : Bool := decide (0xDC00 ≤ n) && decide (n < 0xE000)

/-- The character that a one-letter escape stands for. -/
def letterEscape : Char → Option Char
  | '"' => some '"'
  | '\\' => some '\\'
  | '/' => some '/'
  | 'b' => some '\x08'
  | 'f' => some '\x0c'
  | 'n' => some '\n'
  | 'r' => some '\r'
  | 't' => some '\t'
  | _ => none

/-- What follows a backslash.  A half of a surrogate pair that stands alone gives no character. -/
def escape : List Char → Except Problem (Option Char × List Char)
  | [] => .error .truncated
  | 'u' :: cs =>
    match hexUnit cs with
    | .error p => .error p
    | .ok (n, rest) =>
      if isTrailingHalf n then .ok (none, rest)
      else if isLeadingHalf n then
        match rest with
        | '\\' :: 'u' :: cs' =>
          match hexUnit cs' with
          | .error p => .error p
          | .ok (m, rest') =>
            if isTrailingHalf m then
              .ok (some (Char.ofNat (0x10000 + (n - 0xD800) * 0x400 + (m - 0xDC00))), rest')
            else .ok (none, rest)
        | _ => .ok (none, rest)
      else .ok (some (Char.ofNat n), rest)
  | c :: rest =>
    match letterEscape c with
    | some e => .ok (some e, rest)
    | none => .error .illFormed

/-- The rest of a string literal after its opening quote.  `read` holds the characters so far,
last one first, or nothing once a flawed escape has been seen. -/
def stringRest : Nat → Option (List Char) → List Char → Except Problem (Value × List Char)
  | 0, _, _ => .error .truncated
  | _, _, [] => .error .truncated
  | _ + 1, read, '"' :: rest =>
    .ok (match read with
      | some cs => .string (String.ofList cs.reverse)
      | none => .flawed, rest)
  | bound + 1, read, '\\' :: cs =>
    match escape cs with
    | .error p => .error p
    | .ok (some c, rest) => stringRest bound (read.map (c :: ·)) rest
    | .ok (none, rest) => stringRest bound none rest
  | bound + 1, read, c :: cs =>
    if c.toNat < 0x20 then .error .illFormed else stringRest bound (read.map (c :: ·)) cs

/-! ## Numbers and names -/

/-- One decimal digit or more. -/
def digits (cs : List Char) : Except Problem (List Char × List Char) :=
  match cs with
  | [] => .error .truncated
  | c :: _ => if c.isDigit then .ok (cs.span Char.isDigit) else .error .illFormed

/-- The number that decimal digits denote. -/
def digitsValue (ds : List Char) : Nat := ds.foldl (fun n d => n * 10 + (d.toNat - 48)) 0

/-- The digits in front of point and exponent: no zero in front of others. -/
def wholePart (cs : List Char) : Except Problem (List Char × List Char) :=
  match digits cs with
  | .ok ('0' :: _ :: _, _) => .error .illFormed
  | r => r

/-- An optional point with digits behind it. -/
def fractionPart : List Char → Except Problem (List Char × List Char)
  | '.' :: cs => digits cs
  | cs => .ok ([], cs)

/-- An optional exponent: its sign and digits. -/
def exponentPart : List Char → Except Problem (Option (Bool × List Char) × List Char)
  | c :: cs =>
    if c == 'e' || c == 'E' then
      match cs with
      | '-' :: r => (digits r).map fun (ds, rest) => (some (true, ds), rest)
      | '+' :: r => (digits r).map fun (ds, rest) => (some (false, ds), rest)
      | r => (digits r).map fun (ds, rest) => (some (false, ds), rest)
    else .ok (none, c :: cs)
  | [] => .ok (none, [])

/-- The least whole number that no double-precision number is near enough to: it lies half a step
above the greatest one. -/
def doubleLimit : Nat := Nat.pow 2 1024 - Nat.pow 2 970

/-- Whether `significand * 10 ^ exponent` is too great for a double-precision number. -/
def exceedsDouble (significand : Nat) (exponent : Int) : Bool :=
  significand != 0 &&
    (decide (308 < exponent) || (decide (0 ≤ exponent) &&
      decide (doubleLimit ≤ significand * Nat.pow 10 exponent.toNat)))

/-- A number, the character of its sign included. -/
def number (cs : List Char) : Except Problem (Value × List Char) := do
  let unsigned := match cs with
    | '-' :: r => r
    | r => r
  let (whole, afterWhole) ← wholePart unsigned
  let (fraction, afterFraction) ← fractionPart afterWhole
  let (exponent, rest) ← exponentPart afterFraction
  let power : Int := match exponent with
    | none => 0
    | some (true, ds) => -(digitsValue ds : Int)
    | some (false, ds) => digitsValue ds
  if exceedsDouble (digitsValue (whole ++ fraction)) (power - fraction.length) then
    pure (.flawed, rest)
  else if unsigned.length == cs.length && fraction.isEmpty && exponent.isNone then
    pure (.natural (digitsValue whole), rest)
  else
    pure (.decimal (String.ofList (cs.take (cs.length - rest.length))), rest)

/-- The remaining characters of a name such as `null`, then the value it stands for. -/
def named (value : Value) : List Char → List Char → Except Problem (Value × List Char)
  | [], rest => .ok (value, rest)
  | _ :: _, [] => .error .truncated
  | e :: es, c :: cs => if c = e then named value es cs else .error .illFormed

/-! ## Values -/

mutual

/-- One value, after any blanks. -/
def value : Nat → List Char → Except Problem (Value × List Char)
  | 0, _ => .error .truncated
  | bound + 1, cs =>
    match skipBlanks cs with
    | [] => .error .truncated
    | '"' :: rest => stringRest (rest.length + 1) (some []) rest
    | '[' :: rest =>
      match skipBlanks rest with
      | ']' :: rest' => .ok (.array [], rest')
      | _ =>
        match elements bound rest with
        | .error p => .error p
        | .ok (vs, rest') => .ok (.array vs, rest')
    | '\x7b' :: rest =>
      match skipBlanks rest with
      | '\x7d' :: rest' => .ok (.object [], rest')
      | _ =>
        match fields bound rest with
        | .error p => .error p
        | .ok (fs, rest') => .ok (.object fs, rest')
    | 't' :: rest => named (.bool true) ['r', 'u', 'e'] rest
    | 'f' :: rest => named (.bool false) ['a', 'l', 's', 'e'] rest
    | 'n' :: rest => named .null ['u', 'l', 'l'] rest
    | c :: rest => if c == '-' || c.isDigit then number (c :: rest) else .error .illFormed

/-- One element or more, and the closing bracket. -/
def elements : Nat → List Char → Except Problem (List Value × List Char)
  | 0, _ => .error .truncated
  | bound + 1, cs =>
    match value bound cs with
    | .error p => .error p
    | .ok (v, rest) =>
      match skipBlanks rest with
      | [] => .error .truncated
      | ']' :: rest' => .ok ([v], rest')
      | ',' :: rest' =>
        match elements bound rest' with
        | .error p => .error p
        | .ok (vs, rest'') => .ok (v :: vs, rest'')
      | _ => .error .illFormed

/-- One field or more, and the closing brace. -/
def fields : Nat → List Char → Except Problem (List (String × Value) × List Char)
  | 0, _ => .error .truncated
  | bound + 1, cs =>
    match skipBlanks cs with
    | [] => .error .truncated
    | '"' :: afterQuote =>
      match stringRest (afterQuote.length + 1) (some []) afterQuote with
      | .error p => .error p
      | .ok (.string key, afterKey) =>
        match skipBlanks afterKey with
        | [] => .error .truncated
        | ':' :: afterColon =>
          match value bound afterColon with
          | .error p => .error p
          | .ok (v, rest) =>
            match skipBlanks rest with
            | [] => .error .truncated
            | '\x7d' :: rest' => .ok ([(key, v)], rest')
            | ',' :: rest' =>
              match fields bound rest' with
              | .error p => .error p
              | .ok (fs, rest'') => .ok ((key, v) :: fs, rest'')
            | _ => .error .illFormed
        | _ => .error .illFormed
      | .ok _ => .error .illFormed
    | _ => .error .illFormed

end

/-- The value of a text that holds one value and blanks. -/
def parse (text : String) : Except Problem Value :=
  let cs := text.toList
  match value (2 * cs.length + 2) cs with
  | .error p => .error p
  | .ok (v, rest) => if (skipBlanks rest).isEmpty then .ok v else .error .illFormed

end Hollow.Json
