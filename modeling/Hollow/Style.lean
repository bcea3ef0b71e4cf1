/-!
# Styled text

Lines for a terminal are made of pieces, each with a style.  A piece with a style is painted as
an escape sequence, the text, and a reset; a piece without one is its text.  A reset inside the
text would end the style too early, so the style is put on again behind it.  Without colour every
piece is its text.
-/

namespace Hollow

/-- Colours of the terminal palette. -/
inductive Colour where
  | red
  | green
  | yellow
  | blue
  | cyan
  deriving DecidableEq, Repr

/-- The code that selects a colour. -/
def Colour.code : Colour → Nat
  | .red => 31
  | .green => 32
  | .yellow => 33
  | .blue => 34
  | .cyan => 36

/-- How a piece of text looks. -/
structure Style where
  bold : Bool := false
  dimmed : Bool := false
  colour : Option Colour := none
  deriving DecidableEq, Repr

namespace Style

/-- The codes that select a style: weight first, colour last. -/
def codes (s : Style) : List Nat :=
  (if s.bold then [1] else []) ++ (if s.dimmed then [2] else []) ++ (s.colour.map Colour.code).toList

/-- The escape sequence that switches a style on. -/
def start (s : Style) : List Char :=
  '\x1b' :: '[' :: ((";".intercalate (s.codes.map toString)).toList ++ ['m'])

/-- The escape sequence that ends every style. -/
def reset : List Char := ['\x1b', '[', '0', 'm']

/-- Put a style on again behind each reset in a text. -/
def resume (s : Style) : List Char → List Char
  | '\x1b' :: '[' :: '0' :: 'm' :: cs => reset ++ s.start ++ resume s cs
  | c :: cs => c :: resume s cs
  | [] => []

end Style

/-- A piece of text in one style. -/
structure Piece where
  text : String
  style : Style := {}
  deriving DecidableEq, Repr

/-- The characters of a piece, with or without colour. -/
def Piece.paint (colour : Bool) (p : Piece) : List Char :=
  if colour && !p.style.codes.isEmpty then
    p.style.start ++ p.style.resume p.text.toList ++ Style.reset
  else
    p.text.toList

/-- A line of output. -/
abbrev Line := List Piece

/-- The characters of a line, its end included. -/
def Line.paint (colour : Bool) (l : Line) : List Char := l.flatMap (Piece.paint colour) ++ ['\n']

/-- The text of several lines. -/
def paintLines (colour : Bool) (lines : List Line) : String :=
  String.ofList (lines.flatMap (Line.paint colour))

/-- A piece of plain text. -/
def plain (text : String) : Piece := { text }

/-- A piece of dimmed text. -/
def dimmed (text : String) : Piece := { text, style := { dimmed := true } }

/-- A piece of bold text. -/
def bold (text : String) : Piece := { text, style := { bold := true } }

/-- A piece of coloured text. -/
def coloured (colour : Colour) (text : String) : Piece := { text, style := { colour := some colour } }

/-- Fill a text up with spaces to a number of characters. -/
def padRight (width : Nat) (text : String) : String :=
  text ++ String.ofList (List.replicate (width - text.length) ' ')

end Hollow
