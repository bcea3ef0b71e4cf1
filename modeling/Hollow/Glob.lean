import Hollow.PathName
import Hollow.Text.Utf8

/-!
# Path patterns

Patterns select paths by their bytes.  `?` stands for one byte and `*` for any number of them,
slashes included; `[...]` for one byte of a set; `\x7b...,...\x7d` for one of several alternatives,
which may nest; a backslash takes the next character literally.  `**` between slashes stands for
any number of directories, in front of a slash for any leading directories, and behind one for
everything below.

* `Glob.parse` reads a pattern, one character at a time.
* `Glob.matches` follows all ways of matching at once: after each token it keeps the set of
  suffixes of the path that are left over.
-/

namespace Hollow

/-- One element of a pattern. -/
inductive GlobToken where
  | literal (c : Char)
  /-- Any single byte. -/
  | any
  /-- Any bytes. -/
  | star
  /-- A byte of a set, or outside of it; the ranges are given by their end characters. -/
  | oneOf (negated : Bool) (ranges : List (Char × Char))
  /-- Any leading directories. -/
  | leading
  /-- Everything below a directory. -/
  | within
  /-- Any number of directories between two slashes. -/
  | between
  | alternatives (branches : List (List GlobToken))
  deriving Repr, Inhabited

/-- What is wrong with a pattern. -/
inductive GlobProblem where
  | unclosedClass
  | invalidRange (first last : Char)
  | unclosedAlternatives
  | unopenedAlternatives
  | danglingEscape
  deriving DecidableEq, Repr

/-- The complaint about a pattern. -/
def GlobProblem.message : GlobProblem → String
  | .unclosedClass => "unclosed character class; missing ']'"
  | .invalidRange first last =>
    "invalid range; '" ++ first.toString ++ "' > '" ++ last.toString ++ "'"
  | .unclosedAlternatives =>
    "unclosed alternate group; missing '\x7d' (maybe escape '\x7b' with '[\x7b]'?)"
  | .unopenedAlternatives =>
    "unopened alternate group; missing '\x7b' (maybe escape '\x7d' with '[\x7d]'?)"
  | .danglingEscape => "dangling '\\'"

namespace Glob

/-! ## Reading patterns -/

/-- A character class that is being read. -/
structure OpenClass where
  negated : Bool := false
  /-- The ranges so far, last one first. -/
  ranges : List (Char × Char) := []
  /-- Nothing but a negation has been read. -/
  isFresh : Bool := true
  /-- A dash has been read that may extend the last range. -/
  isExtending : Bool := false

/-- Extend the last range up to a character. -/
def OpenClass.extend (k : OpenClass) (c : Char) : Except GlobProblem OpenClass :=
  match k.ranges with
  | (first, _) :: rest =>
    if c < first then .error (.invalidRange first c)
    else .ok { k with ranges := (first, c) :: rest, isExtending := false, isFresh := false }
  | [] => .ok { k with ranges := [(c, c)], isExtending := false, isFresh := false }

/-- Read one character of a class that does not close it. -/
def OpenClass.read (k : OpenClass) (c : Char) : Except GlobProblem OpenClass :=
  if k.isExtending then k.extend c
  else if c = '-' && !k.isFresh then .ok { k with isExtending := true }
  else .ok { k with ranges := (c, c) :: k.ranges, isFresh := false }

/-- The token of a class that has been closed; a dash at its end stands for itself. -/
def OpenClass.token (k : OpenClass) : GlobToken :=
  .oneOf k.negated (if k.isExtending then ('-', '-') :: k.ranges else k.ranges).reverse

/-- A group of alternatives that is being read. -/
structure OpenGroup where
  /-- The tokens in front of the group, last one first. -/
  before : List GlobToken
  /-- The finished branches, last one first. -/
  branches : List (List GlobToken)

/-- What the characters just read may turn out to be.  Stars remember the character in front of
them. -/
inductive Pending where
  | nothing
  | escape
  | star (before : Option Char)
  | stars (before : Option Char)
  | inClass (k : OpenClass)

/-- The pattern read so far: the open groups, innermost first, the tokens of the current branch,
last one first, and the last character. -/
structure Partial where
  groups : List OpenGroup := []
  tokens : List GlobToken := []
  previous : Option Char := none
  pending : Pending := .nothing

namespace Partial

/-- Add a token. -/
def push (p : Partial) (t : GlobToken) : Partial :=
  { p with tokens := t :: p.tokens, pending := .nothing }

/-- Put a token for directories in the place of the slash before it, unless a token for leading
directories or for everything below stands there. -/
def replace (p : Partial) (t : GlobToken) : Partial :=
  match p.tokens with
  | .leading :: _ | .within :: _ => { p with pending := .nothing }
  | _ :: rest => { p with tokens := t :: rest, pending := .nothing }
  | [] => { p with tokens := [t], pending := .nothing }

/-- Read a character that nothing before it decides about. -/
def readPlain (p : Partial) (c : Char) : Except GlobProblem Partial :=
  match c with
  | '?' => .ok (p.push .any)
  | '*' => .ok { p with pending := .star p.previous }
  | '[' => .ok { p with pending := .inClass {} }
  | '\\' => .ok { p with pending := .escape }
  | '\x7b' => .ok { p with groups := ⟨p.tokens, []⟩ :: p.groups, tokens := [], pending := .nothing }
  | '\x7d' =>
    match p.groups with
    | [] => .error .unopenedAlternatives
    | g :: gs =>
      let branches := (p.tokens.reverse :: g.branches).reverse
      .ok { p with groups := gs, tokens := .alternatives branches :: g.before, pending := .nothing }
  | ',' =>
    match p.groups with
    | [] => .ok (p.push (.literal ','))
    | g :: gs =>
      let g' := { g with branches := p.tokens.reverse :: g.branches }
      .ok { p with groups := g' :: gs, tokens := [], pending := .nothing }
  | c => .ok (p.push (.literal c))

/-- Two stars that stand for no directories. -/
def pushStars (p : Partial) : Partial := (p.push .star).push .star

/-- Whether two stars behind a character may stand for directories. -/
def startsComponent (p : Partial) (before : Option Char) : Bool :=
  before == some '/' || (!p.groups.isEmpty && (before == some ',' || before == some '\x7b'))

/-- Read the character behind two stars. -/
def readAfterStars (p : Partial) (before : Option Char) (c : Char) : Except GlobProblem Partial :=
  if p.tokens.isEmpty then
    if c = '/' then .ok (p.push .leading) else p.pushStars.readPlain c
  else if p.startsComponent before then
    if c = '/' then .ok (p.replace .between)
    else if !p.groups.isEmpty && (c = ',' || c = '\x7d') then (p.replace .within).readPlain c
    else p.pushStars.readPlain c
  else p.pushStars.readPlain c

/-- Read a character inside a class. -/
def readInClass (p : Partial) (k : OpenClass) (c : Char) : Except GlobProblem Partial :=
  if p.previous = some '[' && k.isFresh && !k.negated && (c = '!' || c = '^') then
    .ok { p with pending := .inClass { k with negated := true } }
  else if c = ']' && !k.isFresh then .ok (p.push k.token)
  else (k.read c).map fun k' => { p with pending := .inClass k' }

/-- Read one character. -/
def read (p : Partial) (c : Char) : Except GlobProblem Partial :=
  let next : Except GlobProblem Partial :=
    match p.pending with
    | .nothing => p.readPlain c
    | .escape => .ok (p.push (.literal c))
    | .star before =>
      if c = '*' then .ok { p with pending := .stars before } else (p.push .star).readPlain c
    | .stars before => p.readAfterStars before c
    | .inClass k => p.readInClass k c
  next.map fun q => { q with previous := some c }

/-- Settle what is pending at the end of the pattern. -/
def settle (p : Partial) : Except GlobProblem Partial :=
  match p.pending with
  | .nothing => .ok p
  | .escape => .error .danglingEscape
  | .star _ => .ok (p.push .star)
  | .stars before =>
    .ok (if p.tokens.isEmpty then p.push .leading
      else if p.startsComponent before then p.replace .within
      else p.pushStars)
  | .inClass _ => .error .unclosedClass

end Partial

/-- The tokens of a pattern. -/
def parse (pattern : String) : Except GlobProblem (List GlobToken) :=
  match pattern.toList.foldlM Partial.read ({} : Partial) with
  | .error e => .error e
  | .ok p =>
    match p.settle with
    | .error e => .error e
    | .ok q => if q.groups.isEmpty then .ok q.tokens.reverse else .error .unclosedAlternatives

/-! ## Matching -/

open PathName (slash)

/-- The ranges of bytes that a range of characters stands for.  Characters beyond ASCII stand for
each of their bytes, and the dash joins the last byte before it and the first one behind. -/
def byteRanges (r : Char × Char) : List (UInt8 × UInt8) :=
  let first := String.utf8EncodeChar r.1
  let last := String.utf8EncodeChar r.2
  if r.1 = r.2 then first.map fun b => (b, b)
  else
    (first.dropLast ++ last.drop 1).map (fun b => (b, b)) ++
      match first.getLast?, last.head? with
      | some lo, some hi => [(lo, hi)]
      | _, _ => []

/-- What is left of a path after a slash, for each slash in it. -/
def afterSlashes : List UInt8 → List (List UInt8)
  | [] => []
  | b :: bs => if b = slash then bs :: afterSlashes bs else afterSlashes bs

/-- All suffixes of a path, itself included. -/
def suffixes : List UInt8 → List (List UInt8)
  | [] => [[]]
  | b :: bs => (b :: bs) :: suffixes bs

/-- What is left after given bytes. -/
def strip : List UInt8 → List UInt8 → List (List UInt8)
  | [], path => [path]
  | _ :: _, [] => []
  | e :: es, b :: bs => if b = e then strip es bs else []

/-- Leave out repetitions from suffixes of one path: those with the same length are equal. -/
def distinct : List (List UInt8) → List (List UInt8)
  | [] => []
  | s :: ss => if ss.any (·.length == s.length) then distinct ss else s :: distinct ss

mutual

/-- Nothing but groups without content. -/
def isVoid : List GlobToken → Bool
  | [] => true
  | t :: ts => isVoidToken t && isVoid ts

/-- A group without content. -/
def isVoidToken : GlobToken → Bool
  | .alternatives branches => areVoid branches
  | _ => false

/-- Branches without content. -/
def areVoid : List (List GlobToken) → Bool
  | [] => true
  | b :: bs => isVoid b && areVoid bs

end

mutual

/-- What may be left of a path after a token. -/
def leftAfterToken (path : List UInt8) : GlobToken → List (List UInt8)
  | .literal c => strip (String.utf8EncodeChar c) path
  | .any => path.tail?.toList
  | .star => suffixes path
  | .oneOf negated ranges =>
    match path with
    | [] => []
    | b :: bs =>
      if ((ranges.flatMap byteRanges).any fun r => decide (r.1 ≤ b) && decide (b ≤ r.2)) != negated
      then [bs] else []
  | .leading => path :: afterSlashes path
  | .within =>
    match path with
    | [] => []
    | b :: bs => if b = slash then suffixes bs else []
  | .between =>
    match path with
    | [] => []
    | b :: bs => if b = slash then bs :: afterSlashes bs else []
  | .alternatives branches => if areVoid branches then [path] else leftAfterBranches path branches

/-- What may be left of a path after one of several branches; a branch without content is none. -/
def leftAfterBranches (path : List UInt8) : List (List GlobToken) → List (List UInt8)
  | [] => []
  | b :: bs => (if isVoid b then [] else leftAfter [path] b) ++ leftAfterBranches path bs

/-- What may be left of several paths after tokens. -/
def leftAfter (paths : List (List UInt8)) : List GlobToken → List (List UInt8)
  | [] => paths
  | t :: ts => leftAfter (distinct (paths.flatMap fun path => leftAfterToken path t)) ts

end

/-- Whether a pattern matches the whole of a path.  Leading directories alone match everything. -/
def «matches» (tokens : List GlobToken) (path : List UInt8) : Bool :=
  match tokens with
  | [.leading] => true
  | _ => (leftAfter [path] tokens).any List.isEmpty

end Glob

end Hollow
