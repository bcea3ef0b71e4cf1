/-!
# UTF-8

Texts as byte sequences.  Bytes are taken apart into pieces, each a character or a sequence that is
no well-formed one: no overlong forms, no surrogates, nothing above the last code point.  They are
read one by one; what is remembered is how many continuation bytes are owed and between which bounds
the next one lies.  A byte that is not what is owed ends a malformed piece and is read anew.

* `decode` gives the text of bytes without malformed pieces, and of no others.
* `lossy` gives a text for all bytes, with a replacement character for each malformed piece.
-/

namespace Hollow.Utf8

/-- The bytes of a text. -/
def encode (s : String) : List UInt8 := s.toList.flatMap String.utf8EncodeChar

/-- What is owed after the first byte of a character: the number of continuation bytes, bounds
for the next one, and the bits read so far. -/
structure Owed where
  count : Nat
  least : Nat
  greatest : Nat
  value : Nat
  deriving DecidableEq, Repr

/-- What a first byte outside the one-byte range announces. -/
def announce (b : Nat) : Option Owed :=
  if b < 0xC2 then none
  else if b ≤ 0xDF then some ⟨1, 0x80, 0xBF, b - 0xC0⟩
  else if b = 0xE0 then some ⟨2, 0xA0, 0xBF, 0⟩
  else if b = 0xED then some ⟨2, 0x80, 0x9F, 0xD⟩
  else if b ≤ 0xEF then some ⟨2, 0x80, 0xBF, b - 0xE0⟩
  else if b = 0xF0 then some ⟨3, 0x90, 0xBF, 0⟩
  else if b ≤ 0xF3 then some ⟨3, 0x80, 0xBF, b - 0xF0⟩
  else if b = 0xF4 then some ⟨3, 0x80, 0x8F, 4⟩
  else none

/-- Read a byte where nothing is owed: the pieces that it completes, and what is owed after it. -/
def readFirst (b : Nat) : List (Option Char) × Option Owed :=
  if b < 0x80 then ([some (Char.ofNat b)], none)
  else match announce b with
    | none => ([none], none)
    | some owed => ([], some owed)

/-- Read a byte: the pieces that it completes, and what is owed after it. -/
def readByte : Option Owed → Nat → List (Option Char) × Option Owed
  | none, b => readFirst b
  | some owed, b =>
    if owed.least ≤ b ∧ b ≤ owed.greatest then
      let value := owed.value * 64 + (b - 0x80)
      if owed.count ≤ 1 then ([some (Char.ofNat value)], none)
      else ([], some ⟨owed.count - 1, 0x80, 0xBF, value⟩)
    else (none :: (readFirst b).1, (readFirst b).2)

/-- The pieces of the remaining bytes, in front of which some continuation bytes may be owed. -/
def piecesFrom : Option Owed → List UInt8 → List (Option Char)
  | none, [] => []
  | some _, [] => [none]
  | owed, b :: bs => (readByte owed b.toNat).1 ++ piecesFrom (readByte owed b.toNat).2 bs

/-- The pieces that bytes are made of: characters, and nothing for what is no character. -/
def pieces (bytes : List UInt8) : List (Option Char) := piecesFrom none bytes

/-- What stands for a malformed piece. -/
def replacement : Char := '\uFFFD'

/-- The text that bytes are shown as. -/
def lossy (bytes : List UInt8) : String :=
  String.ofList ((pieces bytes).map fun piece => piece.getD replacement)

/-- The text of a well-formed byte sequence. -/
def decode (bytes : List UInt8) : Option String :=
  if (pieces bytes).contains none then none else some (lossy bytes)

end Hollow.Utf8
