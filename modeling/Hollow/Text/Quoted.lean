import Hollow.Text.Printable

/-!
# Quoted texts

How a text is shown in a message: in double quotes, with short escapes for the usual control
characters and the code point in hexadecimal for everything else that cannot be shown.  A path is
shown in the same way, except that a single quote is escaped too.
-/

namespace Hollow

/-- A code point as an escape. -/
def codePointEscape (c : Char) : List Char :=
  ['\\', 'u', '\x7b'] ++ Nat.toDigits 16 c.toNat ++ ['\x7d']

/-- How a character is shown between quotes. -/
def showChar (escapeApostrophe : Bool) (c : Char) : List Char :=
  match c with
  | '"' => ['\\', '"']
  | '\\' => ['\\', '\\']
  | '\n' => ['\\', 'n']
  | '\t' => ['\\', 't']
  | '\r' => ['\\', 'r']
  | '\x00' => ['\\', '0']
  | '\x27' => if escapeApostrophe then ['\\', '\x27'] else ['\x27']
  | c => if isPrintable c then [c] else codePointEscape c

/-- A text in quotes. -/
def quoteText (s : String) : String :=
  String.ofList ('"' :: s.toList.flatMap (showChar false) ++ ['"'])

/-- A path in quotes. -/
def quotePath (s : String) : String :=
  String.ofList ('"' :: s.toList.flatMap (showChar true) ++ ['"'])

end Hollow
