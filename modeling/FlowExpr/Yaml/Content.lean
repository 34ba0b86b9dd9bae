import FlowExpr.Yaml.Cursor

/-!
# The content of scalars

What the scalars of a document say when its structure is read: plain text over several lines,
quoted text with its escapes, and block text with its indentation and line breaks. Every
reading gives the content and what follows, or refuses the document.

* `readPlain?`: text without quotes;
* `readQuoted?`: text in quotes;
* `readBlock?`: literal and folded blocks.

The loops take as many rounds at most as the document has characters, since each round passes
over one.
-/

namespace FlowExpr.Yaml

/-- Line breaks between two lines of text: one reads as a space, more as one less. -/
def foldedBreaks (breaks : Nat) : List Char :=
  if breaks = 0 then [] else if breaks = 1 then [' '] else List.replicate (breaks - 1) '\n'

/-! ## 1. Plain text -/

/-- The character ends a plain text, given the one after it. -/
def endsPlain (inFlow : Bool) (c next : Char) : Bool :=
  (c == ':' && (isSeparator next || (inFlow && isFlowSign next))) || (inFlow && isFlowSign c)

/-- Length of the word of plain text that begins a list of characters. -/
def plainWord (inFlow : Bool) : List Char → Nat
  | [] => 0
  | c :: cs =>
    if isSeparator c || endsPlain inFlow c (cs.headD '\x00') then 0
    else plainWord inFlow cs + 1

/-- Plain text so far: what it says, the blanks after it, whether a line break follows it, and
    the empty lines after it. A line with a comment is not an empty one. -/
structure PlainState where
  cursor : Cursor
  text : List Char := []
  gap : List Char := []
  broken : Bool := false
  empties : Nat := 0

/-- What stands between two words: a space for a line break, the line breaks of empty lines, or
    the blanks of the line. -/
def PlainState.joint (s : PlainState) : List Char :=
  if !s.cursor.fresh then s.gap
  else if s.broken && s.empties = 0 then [' ']
  else List.replicate s.empties '\n'

/-- One more word. -/
def PlainState.word (s : PlainState) (inFlow : Bool) : PlainState :=
  let length := plainWord inFlow s.cursor.rest
  if length = 0 then s
  else
    { cursor := s.cursor.drop length
      text := s.text ++ s.joint ++ s.cursor.rest.take length }

/-- Blanks and line breaks after a word. A tab may not stand in the indentation of a line with
    content. -/
def PlainState.blanks? (indent : Int) : Nat → PlainState → Option PlainState
  | 0, s => some s
  | n + 1, s =>
    let c := s.cursor.peek
    if isGap c then
      if !s.cursor.fresh then
        PlainState.blanks? indent n
          { s with cursor := s.cursor.dropBlanks 1, gap := s.gap ++ [c] }
      else if c == '\t' && (s.cursor.mark.column : Int) < indent then do
        let (_, after) ← s.cursor.lineRest? true
        if isLineEndOrEnd after.peek then
          PlainState.blanks? indent n { s with cursor := after }
        else none
      else PlainState.blanks? indent n { s with cursor := s.cursor.dropBlanks 1 }
    else if isLineEnd c then
      let s :=
        if s.cursor.fresh then { s with empties := s.empties + 1 }
        else { s with gap := [], broken := true }
      PlainState.blanks? indent n { s with cursor := s.cursor.lineBreak }
    else some s

/-- Words of a plain text until something else comes. -/
def plainWords? (indent : Int) (inFlow : Bool) : Nat → PlainState → Option PlainState
  | 0, s => some s
  | n + 1, s =>
    if s.cursor.atDocumentMark || s.cursor.peek == '#' then some s
    else if inFlow && s.cursor.peek == '-' && isFlowSign (s.cursor.peekAt 1) then none
    else
      let s := s.word inFlow
      if isGap s.cursor.peek || isLineEnd s.cursor.peek then do
        let s ← PlainState.blanks? indent s.cursor.rest.length s
        if !inFlow && (s.cursor.mark.column : Int) < indent then some s
        else plainWords? indent inFlow n s
      else some s

/-- A plain text whose lines are indented at least so far. Text without any character is
    refused. -/
def readPlain? (indent : Int) (inFlow : Bool) (c : Cursor) : Option (List Char × Cursor) := do
  if inFlow && (c.mark.column : Int) < indent then none
  else
    let s ← plainWords? indent inFlow (c.rest.length + 1) { cursor := c }
    if s.text.isEmpty then none else return (s.text, s.cursor)

/-! ## 2. Quoted text -/

/-- The character of an escape after its backslash, and the length of the escape. -/
def quotedEscape? (c : Cursor) : Option (Char × Nat) := escape? (c.peekAt 1) (c.rest.drop 2)

/-- Quoted text so far, and whether it ends with an escaped line break. -/
structure QuotedState where
  cursor : Cursor
  text : List Char := []
  joined : Bool := false

/-- Characters of quoted text up to a blank, a line break or the closing quote. -/
def QuotedState.chars? (quote : Char) : Nat → QuotedState → Option QuotedState
  | 0, s => some s
  | n + 1, s =>
    let c := s.cursor.peek
    if isSeparator c then some s
    else if c == quote then
      if quote == '\'' && s.cursor.peekAt 1 == '\'' then
        QuotedState.chars? quote n
          { s with cursor := s.cursor.drop 2, text := s.text ++ ['\''] }
      else some s
    else if c == '\\' && quote == '"' then
      if isLineEnd (s.cursor.peekAt 1) then
        some { s with cursor := (s.cursor.drop 1).lineBreak, joined := true }
      else do
        let (decoded, length) ← quotedEscape? s.cursor
        QuotedState.chars? quote n
          { s with cursor := s.cursor.drop (length + 1), text := s.text ++ [decoded] }
    else
      QuotedState.chars? quote n { s with cursor := s.cursor.drop 1, text := s.text ++ [c] }

/-- Blanks and line breaks inside quotes. -/
structure QuotedGap where
  cursor : Cursor
  broken : Bool
  gap : List Char := []
  breaks : Nat := 0

/-- Blanks and line breaks inside quotes. A tab may not stand in the indentation. -/
def QuotedGap.read? (indent : Int) : Nat → QuotedGap → Option QuotedGap
  | 0, g => some g
  | n + 1, g =>
    let c := g.cursor.peek
    if isGap c then
      if g.broken then
        if c == '\t' && (g.cursor.mark.column : Int) < indent then none
        else QuotedGap.read? indent n { g with cursor := g.cursor.dropBlanks 1 }
      else
        QuotedGap.read? indent n
          { g with cursor := g.cursor.dropBlanks 1, gap := g.gap ++ [c] }
    else if isLineEnd c then
      QuotedGap.read? indent n
        { cursor := g.cursor.lineBreak, broken := true, gap := [], breaks := g.breaks + 1 }
    else some g

/-- Text up to the closing quote. -/
def quotedText? (quote : Char) (indent : Int) : Nat → QuotedState → Option QuotedState
  | 0, _ => none
  | n + 1, s =>
    if s.cursor.atDocumentMark || isEnd s.cursor.peek ||
        (s.cursor.mark.column : Int) < indent then none
    else do
      let s ← QuotedState.chars? quote s.cursor.rest.length { s with joined := false }
      if s.cursor.peek == quote then return s
      else
        let g ← QuotedGap.read? indent s.cursor.rest.length
          { cursor := s.cursor, broken := s.joined }
        let joint :=
          if s.joined then List.replicate g.breaks '\n'
          else if g.broken then foldedBreaks g.breaks
          else g.gap
        quotedText? quote indent n { s with cursor := g.cursor, text := s.text ++ joint }

/-- What may follow a quoted text on its line: the end of the line, a sign of a flow
    collection, or the colon after a key. -/
def mayFollowQuoted (inFlow sameLine : Bool) (c : Char) : Bool :=
  isLineEndOrEnd c || (inFlow && [',', '}', ']', ':'].contains c) || (sameLine && c == ':')

/-- A quoted text, from its opening quote on. -/
def readQuoted? (indent : Int) (inFlow : Bool) (c : Cursor) : Option (List Char × Cursor) := do
  let quote := c.peek
  let s ← quotedText? quote indent (c.rest.length + 1) { cursor := c.drop 1 }
  let (_, after) ← (s.cursor.drop 1).lineRest? true
  if mayFollowQuoted inFlow (c.mark.line == after.mark.line) after.peek then
    return (s.text, after)
  else none

/-! ## 3. Block text -/

/-- What happens to the line breaks at the end of a block. -/
inductive Chomping where
  | strip | clip | keep
  deriving DecidableEq, Repr

/-- Header of a block: chomping and explicit indentation. -/
structure BlockHeader where
  chomping : Chomping := .clip
  increment : Nat := 0

/-- The chomping that a sign asks for. -/
def chomping? (c : Char) : Option Chomping :=
  if c == '+' then some .keep else if c == '-' then some .strip else none

/-- Header of a block after its sign: a chomping sign and a digit in either order. A zero is
    refused. -/
def blockHeader? (c : Cursor) : Option (BlockHeader × Cursor) :=
  let digit? (ch : Char) : Option Nat := if Text.isDigit ch then some (ch.toNat - 48) else none
  match chomping? c.peek, digit? c.peek with
  | some chomping, _ =>
    match digit? (c.peekAt 1) with
    | some 0 => none
    | some n => some (⟨chomping, n⟩, c.drop 2)
    | none => some (⟨chomping, 0⟩, c.drop 1)
  | none, some 0 => none
  | none, some n =>
    match chomping? (c.peekAt 1) with
    | some chomping => some (⟨chomping, n⟩, c.drop 2)
    | none => some (⟨.clip, n⟩, c.drop 1)
  | none, none => some (⟨.clip, 0⟩, c)

/-- Pass over empty lines and over the indentation of the next line, up to a column. The answer
    counts the line breaks. -/
def blockIndent (column : Nat) : Nat → Nat → Cursor → Nat × Cursor
  | 0, breaks, c => (breaks, c)
  | n + 1, breaks, c =>
    let spaces := ((c.rest.takeWhile (· == ' ')).take (column - c.mark.column)).length
    let c := c.dropBlanks spaces
    if isLineEnd c.peek then blockIndent column n (breaks + 1) c.lineBreak else (breaks, c)

/-- Pass over the empty lines before a block and over the indentation of its first line. The
    answer has the greatest column that was reached and the number of line breaks. -/
def blockFirstIndent : Nat → Nat → Nat → Cursor → Nat × Nat × Cursor
  | 0, widest, breaks, c => (widest, breaks, c)
  | n + 1, widest, breaks, c =>
    let c := c.dropBlanksWhile (· == ' ')
    let widest := max widest c.mark.column
    if isLineEnd c.peek then blockFirstIndent n widest (breaks + 1) c.lineBreak
    else (widest, breaks, c)

/-- Lines of a block so far: the text, whether a line break ends it, whether its last line
    began with a blank, and the empty lines after it. -/
structure BlockState where
  cursor : Cursor
  text : List Char := []
  ended : Bool := false
  blank : Bool := false
  breaks : Nat := 0

/-- Lines of a block at a column. In a folded block, one line break between two lines that do
    not begin with a blank reads as a space. -/
def blockLinesFrom (literal : Bool) (column : Nat) : Nat → BlockState → BlockState
  | 0, s => s
  | n + 1, s =>
    if s.cursor.mark.column ≠ column || isEnd s.cursor.peek ||
        (column = 0 && s.cursor.atDocumentMark) then s
    else
      let blank := isGap s.cursor.peek
      let joint :=
        if !literal && s.ended && !s.blank && !blank then
          if s.breaks = 0 then [' '] else List.replicate s.breaks '\n'
        else (if s.ended then ['\n'] else []) ++ List.replicate s.breaks '\n'
      let (line, after) := s.cursor.takeWhile fun ch => !isLineEndOrEnd ch
      let text := s.text ++ joint ++ line
      if isEnd after.peek then ⟨after, text, false, blank, 0⟩
      else
        let (breaks, next) := blockIndent column after.rest.length 0 after.lineBreak
        blockLinesFrom literal column n ⟨next, text, true, blank, breaks⟩

/-- Text of a block that has no line: what its chomping leaves of the line breaks. -/
def emptyBlock (chomping : Chomping) (sameLine broken : Bool) (breaks : Nat) : List Char :=
  match chomping with
  | .strip => []
  | .clip => if sameLine || !broken then [] else ['\n']
  | .keep =>
    if sameLine then []
    else if breaks = 0 then (if broken then ['\n'] else [])
    else List.replicate breaks '\n'

/-- End of a block: what its chomping leaves of the line breaks after the last line. A last
    line that the document cuts off counts as ended. -/
def chompedEnd (chomping : Chomping) (column : Nat) (s : BlockState) : List Char :=
  let last := (if s.ended then ['\n'] else []) ++
    (if isEnd s.cursor.peek && max column 1 ≤ s.cursor.mark.column then ['\n'] else [])
  match chomping with
  | .strip => []
  | .clip => last
  | .keep => last ++ List.replicate s.breaks '\n'

/-- A block text from its sign on, inside a collection of an indentation. The answer also has
    the place where its content begins. -/
def readBlock? (indent : Int) (literal : Bool) (c : Cursor) :
    Option (List Char × Mark × Cursor) := do
  let (header, afterHeader) ← blockHeader? (c.drop 1)
  let (_, lineEnd) ← afterHeader.lineRest? true
  if !isLineEndOrEnd lineEnd.peek then none
  else
    let broken := isLineEnd lineEnd.peek
    let start := if broken then lineEnd.lineBreak else lineEnd
    if start.peek == '\t' then none
    else
      let explicit := if header.increment = 0 then 0
        else if 0 ≤ indent then indent.toNat + header.increment else header.increment
      let (column, breaks, first) :=
        if explicit = 0 then
          let (widest, breaks, first) := blockFirstIndent (start.rest.length + 1) 0 0 start
          let column := max widest (indent + 1).toNat
          (if 0 < indent then max column 1 else column, breaks, first)
        else
          let (breaks, first) := blockIndent explicit (start.rest.length + 1) 0 start
          (explicit, breaks, first)
      if isEnd first.peek then
        return (emptyBlock header.chomping (first.mark.line == c.mark.line) broken breaks,
          c.mark, first)
      else if first.mark.column < column && indent < (first.mark.column : Int) then none
      else
        let s := blockLinesFrom literal column (first.rest.length + 1)
          { cursor := first, breaks }
        return (s.text ++ chompedEnd header.chomping column s, first.mark, s.cursor)

end FlowExpr.Yaml
