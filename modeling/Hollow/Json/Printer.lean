import Hollow.Json.Value

/-!
# Writing JSON

Two layouts of the same grammar: `compact` writes no blanks, `pretty` puts every element and
field on a line of its own, indented by two spaces per level, with `[]` and `{}` for containers
without content.  In strings only quotes, backslashes and the control characters below the space
are escaped; everything else stands for itself.
-/

namespace Hollow.Json

/-- A hexadecimal digit in lower case. -/
def hexDigit (n : Nat) : Char :=
  if n < 10 then Char.ofNat (48 + n) else Char.ofNat (87 + n)

/-- How a character is written inside a string literal. -/
def escapeChar (c : Char) : List Char :=
  if c = '"' then ['\\', '"']
  else if c = '\\' then ['\\', '\\']
  else if c = '\n' then ['\\', 'n']
  else if c = '\r' then ['\\', 'r']
  else if c = '\t' then ['\\', 't']
  else if c = '\x08' then ['\\', 'b']
  else if c = '\x0c' then ['\\', 'f']
  else if c.toNat < 0x20 then
    ['\\', 'u', '0', '0', hexDigit (c.toNat / 16), hexDigit (c.toNat % 16)]
  else [c]

/-- A string literal with its quotes. -/
def quote (s : String) : List Char := '"' :: (s.toList.flatMap escapeChar ++ ['"'])

namespace Value

/-- Scalars are written alike in both layouts. -/
def scalarChars : Value → List Char
  | .null => ['n', 'u', 'l', 'l']
  | .bool true => ['t', 'r', 'u', 'e']
  | .bool false => ['f', 'a', 'l', 's', 'e']
  | .natural n => Nat.toDigits 10 n
  | .decimal literal => literal.toList
  | .string s => quote s
  | .flawed => ['n', 'u', 'l', 'l']
  | .array _ => []
  | .object _ => []

mutual

/-- The characters of the layout without blanks. -/
def compactChars : Value → List Char
  | .array [] => ['[', ']']
  | .array (v :: vs) => '[' :: (compactChars v ++ compactElements vs)
  | .object [] => ['\x7b', '\x7d']
  | .object ((k, v) :: fs) => '\x7b' :: (quote k ++ ':' :: (compactChars v ++ compactFields fs))
  | v => scalarChars v

/-- The elements after the first one, and the closing bracket. -/
def compactElements : List Value → List Char
  | [] => [']']
  | v :: vs => ',' :: (compactChars v ++ compactElements vs)

/-- The fields after the first one, and the closing brace. -/
def compactFields : List (String × Value) → List Char
  | [] => ['\x7d']
  | (k, v) :: fs => ',' :: (quote k ++ ':' :: (compactChars v ++ compactFields fs))

end

/-- The line break in front of what stands at an indentation level. -/
def newline (level : Nat) : List Char := '\n' :: List.replicate (2 * level) ' '

mutual

/-- The characters of the indented layout, for a value that stands at an indentation level. -/
def prettyChars (level : Nat) : Value → List Char
  | .array [] => ['[', ']']
  | .array (v :: vs) =>
    '[' :: (newline (level + 1) ++ prettyChars (level + 1) v ++ prettyElements level vs)
  | .object [] => ['\x7b', '\x7d']
  | .object ((k, v) :: fs) =>
    '\x7b' :: (newline (level + 1) ++ quote k ++ ':' :: ' ' :: (prettyChars (level + 1) v ++
      prettyFields level fs))
  | v => scalarChars v

/-- The elements after the first one, and the closing bracket. -/
def prettyElements (level : Nat) : List Value → List Char
  | [] => newline level ++ [']']
  | v :: vs =>
    ',' :: (newline (level + 1) ++ prettyChars (level + 1) v ++ prettyElements level vs)

/-- The fields after the first one, and the closing brace. -/
def prettyFields (level : Nat) : List (String × Value) → List Char
  | [] => newline level ++ ['\x7d']
  | (k, v) :: fs =>
    ',' :: (newline (level + 1) ++ quote k ++ ':' :: ' ' :: (prettyChars (level + 1) v ++
      prettyFields level fs))

end

/-- The text without blanks. -/
def compact (v : Value) : String := String.ofList v.compactChars

/-- The indented text. -/
def pretty (v : Value) : String := String.ofList (v.prettyChars 0)

end Value

end Hollow.Json
