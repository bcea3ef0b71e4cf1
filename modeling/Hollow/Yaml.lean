/-!
# YAML documents

The part of YAML that configuration files use: comments, document markers, block and flow
sequences and mappings, and plain and quoted scalars, which may go on over several lines.
Anchors, tags, block scalars, directives and explicit keys are refused.

The text is turned into cells, characters that know their line and column, because indentation
decides where a block ends.  Every function takes the remaining cells and gives back those behind
what it has read; nothing stands for a text that is not such a document.  The recursion is bounded
by an argument that `parse` computes from the length of the text.
-/

namespace Hollow.Yaml

/-- A document's content. -/
inductive Node where
  | scalar (text : String) (isPlain : Bool)
  | sequence (items : List Node)
  | mapping (pairs : List (Node × Node))
  deriving Repr, Inhabited

/-- The scalar that stands for a value left out. -/
def Node.absent : Node := .scalar "" true

/-- A character and its place. -/
structure Cell where
  char : Char
  line : Nat
  col : Nat
  deriving Repr

/-- Read the characters of a text as cells; a carriage return, alone or before a newline, ends a
line too. -/
def cells (line col : Nat) : List Char → List Cell
  | [] => []
  | '\r' :: '\n' :: cs => ⟨'\n', line, col⟩ :: cells (line + 1) 0 cs
  | '\r' :: cs => ⟨'\n', line, col⟩ :: cells (line + 1) 0 cs
  | '\n' :: cs => ⟨'\n', line, col⟩ :: cells (line + 1) 0 cs
  | c :: cs => ⟨c, line, col⟩ :: cells line (col + 1) cs

/-- Characters that may stand in a document. -/
def isAllowed (c : Char) : Bool :=
  let n := c.toNat
  c == '\t' || c == '\n' || c == '\r' || (decide (0x20 ≤ n) && decide (n ≤ 0x7E)) || n == 0x85 ||
    (decide (0xA0 ≤ n) && n != 0xFEFF && n != 0xFFFE && n != 0xFFFF)

/-! ## Looking ahead -/

/-- A space or a tab. -/
def isSpace (c : Char) : Bool := c == ' ' || c == '\t'

/-- The next cell is a blank, a line end, or missing. -/
def endsWord : List Cell → Bool
  | [] => true
  | c :: _ => isSpace c.char || c.char == '\n'

/-- The line is over, but for blanks and a comment. -/
def endsLine (cs : List Cell) : Bool :=
  match cs.dropWhile (isSpace ·.char) with
  | [] => true
  | c :: _ => c.char == '\n' || c.char == '#'

/-- A marker of three equal characters at the beginning of a line. -/
def isMarker (mark : Char) : List Cell → Bool
  | a :: b :: c :: rest =>
    a.col == 0 && a.char == mark && b.char == mark && c.char == mark && endsWord rest
  | _ => false

/-- The document ends here. -/
def endsDocument (cs : List Cell) : Bool := cs.isEmpty || isMarker '-' cs || isMarker '.' cs

/-- An indicator that is a token only with a blank behind it. -/
def isIndicator (mark : Char) : List Cell → Bool
  | c :: rest => c.char == mark && endsWord rest
  | [] => false

/-- Characters that separate the parts of a flow collection. -/
def isFlowIndicator (c : Char) : Bool :=
  c == ',' || c == '[' || c == ']' || c == '\x7b' || c == '\x7d'

/-- Go to the next token, over blanks, line ends and comments.  Outside of flow collections a tab
must not stand where indentation counts. -/
def toToken (flow indenting inComment : Bool) : List Cell → Option (List Cell)
  | [] => some []
  | c :: cs =>
    if c.char == '\n' then toToken flow true false cs
    else if inComment then toToken flow indenting true cs
    else if c.char == ' ' then toToken flow indenting false cs
    else if c.char == '\t' then
      if flow || !indenting then toToken flow indenting false cs else none
    else if c.char == '#' then toToken flow indenting true cs
    else some (c :: cs)

/-! ## Scalars -/

/-- What stands for line breaks inside a scalar: a single one is a space. -/
def fold (breaks : Nat) : List Char :=
  if breaks ≤ 1 then List.replicate breaks ' ' else List.replicate (breaks - 1) '\n'

/-- The part of a plain scalar on one line.  `text` and `blanks` hold what has been read, last
character first; blanks count only when something follows them. -/
def plainLine (flow : Bool) (text blanks : List Char) :
    List Cell → Option (List Char × List Cell)
  | [] => some (text, [])
  | c :: cs =>
    if c.char == '\n' then some (text, c :: cs)
    else if isSpace c.char then plainLine flow text (c.char :: blanks) cs
    else if c.char == '#' && !blanks.isEmpty then some (text, c :: cs)
    else if c.char == ':' && endsWord cs then some (text, c :: cs)
    else if c.char == ':' && flow && cs.head?.any (fun d => isFlowIndicator d.char || d.char == '?')
    then none
    else if flow && isFlowIndicator c.char then some (text, c :: cs)
    else plainLine flow (c.char :: (blanks ++ text)) [] cs

/-- Go over line ends and the blanks that begin a line, counting the line ends. -/
def overBreaks (breaks : Nat) : List Cell → Nat × List Cell
  | [] => (breaks, [])
  | c :: cs =>
    if c.char == '\n' then overBreaks (breaks + 1) cs
    else if isSpace c.char then overBreaks breaks cs
    else (breaks, c :: cs)

/-- A plain scalar.  It goes on with the lines below as long as they are indented enough. -/
def plainScalar (flow : Bool) (least : Nat) : Nat → List Char → List Cell →
    Option (List Char × List Cell)
  | 0, _, _ => none
  | bound + 1, text, cs =>
    match plainLine flow text [] cs with
    | none => none
    | some (text', rest) =>
      match rest with
      | [] => some (text', [])
      | c :: _ =>
        if c.char != '\n' then some (text', rest)
        else
          let (breaks, next) := overBreaks 0 rest
          match next with
          | [] => some (text', rest)
          | d :: _ =>
            let goesOn := d.char != '#' && !endsDocument next && (flow || decide (least ≤ d.col)) &&
              !isIndicator ':' next && !(flow && isFlowIndicator d.char)
            if goesOn then plainScalar flow least bound (fold breaks ++ text') next
            else some (text', rest)

/-- Whether a plain scalar may begin here. -/
def startsPlain (flow : Bool) : List Cell → Bool
  | [] => false
  | c :: cs =>
    if c.char == '-' then !endsWord cs
    else if c.char == '?' || c.char == ':' then !flow && !endsWord cs
    else !("[]\x7b\x7d,#&*!|>'\"%@`".toList.contains c.char)

/-- The value of hexadecimal digits, a given number of them. -/
def hexadecimal : Nat → Nat → List Cell → Option (Nat × List Cell)
  | 0, value, cs => some (value, cs)
  | _ + 1, _, [] => none
  | count + 1, value, c :: cs =>
    let n := c.char.toNat
    if '0' ≤ c.char ∧ c.char ≤ '9' then hexadecimal count (value * 16 + (n - 48)) cs
    else if 'a' ≤ c.char ∧ c.char ≤ 'f' then hexadecimal count (value * 16 + (n - 87)) cs
    else if 'A' ≤ c.char ∧ c.char ≤ 'F' then hexadecimal count (value * 16 + (n - 55)) cs
    else none

/-- A character given by its code point. -/
def codePoint (count : Nat) (cs : List Cell) : Option (Char × List Cell) :=
  match hexadecimal count 0 cs with
  | none => none
  | some (n, rest) => if n.isValidChar then some (Char.ofNat n, rest) else none

/-- The character that an escape in double quotes stands for. -/
def escaped : List Cell → Option (Char × List Cell)
  | [] => none
  | c :: cs =>
    match c.char with
    | '0' => some ('\x00', cs)
    | 'a' => some ('\x07', cs)
    | 'b' => some ('\x08', cs)
    | 't' | '\t' => some ('\t', cs)
    | 'n' => some ('\n', cs)
    | 'v' => some ('\x0b', cs)
    | 'f' => some ('\x0c', cs)
    | 'r' => some ('\r', cs)
    | 'e' => some ('\x1b', cs)
    | ' ' => some (' ', cs)
    | '"' => some ('"', cs)
    | '/' => some ('/', cs)
    | '\\' => some ('\\', cs)
    | 'N' => some ('\u0085', cs)
    | '_' => some ('\u00a0', cs)
    | 'L' => some ('\u2028', cs)
    | 'P' => some ('\u2029', cs)
    | 'x' => codePoint 2 cs
    | 'u' => codePoint 4 cs
    | 'U' => codePoint 8 cs
    | _ => none

/-- Blanks and line ends inside quotes that have yet to be written out. -/
structure Margin where
  /-- Blanks, last one first. -/
  blanks : List Char := []
  breaks : Nat := 0
  /-- At the beginning of a line, where blanks do not count. -/
  isIndent : Bool := false

/-- The characters that a margin stands for, last one first. -/
def Margin.chars (m : Margin) : List Char := if m.breaks = 0 then m.blanks else fold m.breaks

/-- The rest of a scalar in single quotes.  `text` holds what has been read, last character
first. -/
def singleQuoted : Nat → List Char → Margin → List Cell → Option (List Char × List Cell)
  | 0, _, _, _ => none
  | _, _, _, [] => none
  | bound + 1, text, m, c :: cs =>
    if isMarker '-' (c :: cs) || isMarker '.' (c :: cs) then none
    else if c.char == '\n' then
      singleQuoted bound text { breaks := m.breaks + 1, isIndent := true } cs
    else if isSpace c.char then
      singleQuoted bound text (if m.isIndent then m else { m with blanks := c.char :: m.blanks }) cs
    else if c.char == '\x27' then
      match cs with
      | d :: rest =>
        if d.char == '\x27' then singleQuoted bound ('\x27' :: (m.chars ++ text)) {} rest
        else some (m.chars ++ text, cs)
      | [] => some (m.chars ++ text, [])
    else singleQuoted bound (c.char :: (m.chars ++ text)) {} cs

/-- The rest of a scalar in double quotes.  `text` holds what has been read, last character
first. -/
def doubleQuoted : Nat → List Char → Margin → List Cell → Option (List Char × List Cell)
  | 0, _, _, _ => none
  | _, _, _, [] => none
  | bound + 1, text, m, c :: cs =>
    if isMarker '-' (c :: cs) || isMarker '.' (c :: cs) then none
    else if c.char == '\n' then
      doubleQuoted bound text { breaks := m.breaks + 1, isIndent := true } cs
    else if isSpace c.char then
      doubleQuoted bound text (if m.isIndent then m else { m with blanks := c.char :: m.blanks }) cs
    else if c.char == '"' then some (m.chars ++ text, cs)
    else if c.char == '\\' then
      match cs with
      | [] => none
      | d :: rest =>
        if d.char == '\n' then doubleQuoted bound (m.chars ++ text) { isIndent := true } rest
        else match escaped cs with
          | none => none
          | some (e, rest) => doubleQuoted bound (e :: (m.chars ++ text)) {} rest
    else doubleQuoted bound (c.char :: (m.chars ++ text)) {} cs

/-- A scalar with its text. -/
def scalar (isPlain : Bool) : Option (List Char × List Cell) → Option (Node × List Cell)
  | none => none
  | some (text, rest) => some (.scalar (String.ofList text.reverse) isPlain, rest)

/-! ## Flow collections -/

/-- The next cell, if it is a given character. -/
def expect (c : Char) : List Cell → Option (List Cell)
  | d :: rest => if d.char == c then some rest else none
  | [] => none

/-- What follows the colon behind a key, which stands on the line on which the key begins. -/
def afterKeyColon (key rest : List Cell) : Option (List Cell) :=
  if key.head?.map (·.line) == rest.head?.map (·.line) then expect ':' rest else none

mutual

/-- A scalar or flow collection that begins here. -/
def inlineNode (flow : Bool) (least : Nat) : Nat → List Cell → Option (Node × List Cell)
  | 0, _ => none
  | _, [] => none
  | bound + 1, c :: cs =>
    if c.char == '[' then
      match flowItems bound cs with
      | none => none
      | some (items, rest) => some (.sequence items, rest)
    else if c.char == '\x7b' then
      match flowPairs bound cs with
      | none => none
      | some (pairs, rest) => some (.mapping pairs, rest)
    else if c.char == '\x27' then scalar false (singleQuoted (cs.length + 1) [] {} cs)
    else if c.char == '"' then scalar false (doubleQuoted (cs.length + 1) [] {} cs)
    else if startsPlain flow (c :: cs) then
      scalar true (plainScalar flow least (cs.length + 1) [] (c :: cs))
    else none

/-- The items of a flow sequence and its closing bracket; an item may be a single pair. -/
def flowItems : Nat → List Cell → Option (List Node × List Cell)
  | 0, _ => none
  | bound + 1, cs =>
    match toToken true false false cs with
    | none => none
    | some start =>
      if endsDocument start then none
      else match expect ']' start with
        | some rest => some ([], rest)
        | none =>
          match flowPair bound start with
          | none => none
          | some (key, value?, rest) =>
            let item := match value? with
              | none => key
              | some value => .mapping [(key, value)]
            match expect ',' rest with
            | some more =>
              match flowItems bound more with
              | none => none
              | some (items, rest') => some (item :: items, rest')
            | none =>
              match expect ']' rest with
              | some rest' => some ([item], rest')
              | none => none

/-- The pairs of a flow mapping and its closing brace; a value may be left out. -/
def flowPairs : Nat → List Cell → Option (List (Node × Node) × List Cell)
  | 0, _ => none
  | bound + 1, cs =>
    match toToken true false false cs with
    | none => none
    | some start =>
      if endsDocument start then none
      else match expect '\x7d' start with
        | some rest => some ([], rest)
        | none =>
          match flowPair bound start with
          | none => none
          | some (key, value?, rest) =>
            let pair := (key, value?.getD Node.absent)
            match expect ',' rest with
            | some more =>
              match flowPairs bound more with
              | none => none
              | some (pairs, rest') => some (pair :: pairs, rest')
            | none =>
              match expect '\x7d' rest with
              | some rest' => some ([pair], rest')
              | none => none

/-- A node inside a flow collection, and the value behind a colon if there is one.  The rest
begins with a token. -/
def flowPair : Nat → List Cell → Option (Node × Option Node × List Cell)
  | 0, _ => none
  | bound + 1, cs =>
    match inlineNode true 0 bound cs with
    | none => none
    | some (key, afterKey) =>
      match toToken true false false afterKey with
      | none => none
      | some rest =>
        match afterKeyColon cs rest with
        | none => some (key, none, rest)
        | some afterColon =>
          match toToken true false false afterColon with
          | none => none
          | some start =>
            match start with
            | [] => none
            | c :: _ =>
              if c.char == ',' || c.char == ']' || c.char == '\x7d' then
                some (key, some Node.absent, start)
              else match inlineNode true 0 bound start with
                | none => none
                | some (value, afterValue) =>
                  match toToken true false false afterValue with
                  | none => none
                  | some rest' => some (key, some value, rest')

end

/-! ## Block collections -/

/-- A key on one line with the colon behind it. -/
def simpleKey (bound : Nat) (cs : List Cell) : Option (Node × List Cell) :=
  match cs with
  | [] => none
  | first :: _ =>
    match inlineNode false (first.col + 1) bound cs with
    | none => none
    | some (key, afterKey) =>
      match afterKey.dropWhile (isSpace ·.char) with
      | [] => none
      | c :: rest =>
        if c.char == ':' && c.line == first.line && endsWord rest then some (key, rest) else none

mutual

/-- The node that begins here, in a block that is indented by at least `least` columns.  `mayNest`
tells whether a block collection may begin here.  The rest begins with a token. -/
def blockNode (least : Nat) (mayNest : Bool) : Nat → List Cell → Option (Node × List Cell)
  | 0, _ => none
  | _, [] => none
  | bound + 1, c :: cs =>
    if isIndicator '-' (c :: cs) then
      if mayNest then
        match blockItems c.col bound (c :: cs) with
        | none => none
        | some (items, rest) => some (.sequence items, rest)
      else none
    else if (simpleKey bound (c :: cs)).isSome then
      if mayNest then
        match blockPairs c.col bound (c :: cs) with
        | none => none
        | some (pairs, rest) => some (.mapping pairs, rest)
      else none
    else
      match inlineNode false least bound (c :: cs) with
      | none => none
      | some (node, rest) =>
        if endsLine rest then (toToken false false false rest).map fun next => (node, next)
        else none

/-- The items of a block sequence whose dashes stand in a column. -/
def blockItems (col : Nat) : Nat → List Cell → Option (List Node × List Cell)
  | 0, _ => none
  | _, [] => none
  | bound + 1, dash :: cs =>
    match toToken false true false cs with
    | none => none
    | some start =>
      let item :=
        if endsDocument start then some (Node.absent, start)
        else match start with
          | [] => some (Node.absent, start)
          | c :: _ =>
            if c.line != dash.line && decide (c.col ≤ col) then some (Node.absent, start)
            else blockNode (col + 1) true bound start
      match item with
      | none => none
      | some (node, rest) =>
        if endsDocument rest then some ([node], rest)
        else match rest with
          | [] => some ([node], rest)
          | c :: _ =>
            if decide (col < c.col) then none
            else if c.col == col && isIndicator '-' rest then
              match blockItems col bound rest with
              | none => none
              | some (nodes, rest') => some (node :: nodes, rest')
            else some ([node], rest)

/-- The pairs of a block mapping whose keys stand in a column. -/
def blockPairs (col : Nat) : Nat → List Cell → Option (List (Node × Node) × List Cell)
  | 0, _ => none
  | bound + 1, cs =>
    match simpleKey bound cs with
    | none => none
    | some (key, afterColon) =>
      match toToken false false false afterColon with
      | none => none
      | some start =>
        let value :=
          if endsDocument start then some (Node.absent, start)
          else match start with
            | [] => some (Node.absent, start)
            | c :: _ =>
              if !endsLine afterColon then blockNode (col + 1) false bound start
              else if decide (col < c.col) then blockNode (col + 1) true bound start
              else if c.col == col && isIndicator '-' start then
                match blockItems col bound start with
                | none => none
                | some (items, rest) => some (.sequence items, rest)
              else some (Node.absent, start)
        match value with
        | none => none
        | some (node, rest) =>
          if endsDocument rest then some ([(key, node)], rest)
          else match rest with
            | [] => some ([(key, node)], rest)
            | c :: _ =>
              if decide (col < c.col) then none
              else if c.col == col then
                match blockPairs col bound rest with
                | none => none
                | some (pairs, rest') => some ((key, node) :: pairs, rest')
              else some ([(key, node)], rest)

end

/-! ## Documents -/

/-- Nothing but end markers and comments follows the document. -/
def isOver : Nat → List Cell → Bool
  | 0, _ => false
  | bound + 1, cs =>
    if cs.isEmpty then true
    else if isMarker '.' cs && endsLine (cs.drop 3) then
      match toToken false false false (cs.drop 3) with
      | none => false
      | some rest => isOver bound rest
    else false

/-- The content of the single document of a text.  A text without any content is an absent
value. -/
def parse (text : String) : Option Node :=
  let chars := match text.toList with
    | '\uFEFF' :: cs => cs
    | cs => cs
  if !chars.all isAllowed then none
  else
    let bound := 4 * chars.length + 4
    match toToken false true false (cells 0 0 chars) with
    | none => none
    | some [] => some Node.absent
    | some start =>
      if isMarker '.' start then none
      else
        let explicit := isMarker '-' start
        let body := if explicit then toToken false false false (start.drop 3) else some start
        match body with
        | none => none
        | some content =>
          if endsDocument content then
            if isOver bound content then some Node.absent else none
          else
            let mayNest := !explicit || endsLine (start.drop 3)
            match blockNode 0 mayNest bound content with
            | none => none
            | some (node, rest) => if isOver bound rest then some node else none

end Hollow.Yaml
