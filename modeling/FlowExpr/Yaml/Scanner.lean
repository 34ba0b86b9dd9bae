import FlowExpr.Yaml.Content
import FlowExpr.Yaml.Directive

/-!
# From a document to its tokens

The signs of a document are read from left to right. Two things are known only later: that a
node was the key of a mapping shows when its colon comes, and that a block collection ends
shows when a line is indented less. So a node that may be a key is remembered with its place in
the list of tokens, and the tokens for the key and for the mapping are put in there.

* `Scanner.step?`: one more token;
* `scan`: all tokens, or those that were certain when a token could not be read.
-/

namespace FlowExpr.Yaml

/-- A node that may turn out to be a key: its place in the list of tokens and in the text. Where
    only a key can stand it is required to be one. -/
structure PossibleKey where
  possible : Bool := false
  required : Bool := false
  position : Nat := 0
  mark : Mark := {}
  deriving Repr

/-- The key is given up; one that is required cannot be. -/
def PossibleKey.giveUp? (k : PossibleKey) : Option PossibleKey :=
  if k.possible && k.required then none else some { k with possible := false }

/-- An indentation to go back to, and whether a block collection ends there. -/
structure Indent where
  indent : Int
  isBlock : Bool
  deriving Repr

/-- State of reading tokens. The innermost of the keys and indentations stands first; there is
    one possible key for each open flow collection and one for the block around them. A colon in
    a flow collection opens a mapping without braces unless a brace or a question mark started
    one; such a mapping does not nest, and the next comma, bracket or brace that closes ends
    it. -/
structure Scanner where
  cursor : Cursor
  tokens : List Token := []
  keyAllowed : Bool := true
  keys : List PossibleKey := [{}]
  indent : Int := -1
  indents : List Indent := []
  flowLevel : Nat := 0
  adjacentAt : Nat := 0
  mappingStarted : Bool := false
  bareMapping : Bool := false

namespace Scanner

/-- Flow collections nest no deeper than this. -/
def maxFlowLevel : Nat := 255

/-- A flow collection is open. -/
def inFlow (s : Scanner) : Bool := 0 < s.flowLevel

/-- A token at the end of the list. -/
def push (s : Scanner) (kind : TokenKind) (mark : Mark) : Scanner :=
  { s with tokens := s.tokens ++ [⟨kind, mark⟩] }

/-- A token at a position of the list. -/
def insert (s : Scanner) (position : Nat) (kind : TokenKind) (mark : Mark) : Scanner :=
  { s with tokens := s.tokens.take position ++ ⟨kind, mark⟩ :: s.tokens.drop position }

/-! ## 1. Possible keys -/

/-- The innermost possible key. -/
def key (s : Scanner) : PossibleKey := s.keys.headD {}

/-- A node here has to be a key: it stands at the column of the block collection around it. -/
def needsKey (s : Scanner) : Bool :=
  !s.inFlow && s.indent == (s.cursor.mark.column : Int) && s.indents.head?.any Indent.isBlock

/-- The node that comes next may be a key, if one is allowed here. -/
def saveKey (s : Scanner) : Scanner :=
  if s.keyAllowed then
    { s with keys := ⟨true, s.needsKey, s.tokens.length, s.cursor.mark⟩ :: s.keys.tail }
  else s

/-- The last node is not counted as a possible key any more. -/
def forgetKey (s : Scanner) : Scanner :=
  { s with keys := { s.key with possible := false } :: s.keys.tail }

/-- The last node was no key. -/
def removeKey? (s : Scanner) : Option Scanner := do
  return { s with keys := (← s.key.giveUp?) :: s.keys.tail }

/-- Characters that a key may be away from its colon. -/
def maxKeyLength : Nat := 1024

/-- Outside of flow collections a key stands on the line of its colon and not too far away. -/
def staleKeys? (s : Scanner) : Option Scanner :=
  if s.inFlow then some s
  else
    let mark := s.cursor.mark
    let stale (k : PossibleKey) : Bool :=
      k.mark.line < mark.line || k.mark.index + maxKeyLength < mark.index
    do
      let keys ← s.keys.mapM fun k => if stale k then k.giveUp? else some k
      return { s with keys }

/-! ## 2. Indentation -/

/-- End the block collections that are indented more than a column. -/
def unrollTo (s : Scanner) (column : Int) : Scanner :=
  if s.inFlow then s
  else
    let rec unroll (s : Scanner) : List Indent → Scanner
      | [] => s
      | i :: rest =>
        if column < s.indent then
          let s := { s with indent := i.indent, indents := rest }
          unroll (if i.isBlock then s.push .blockEnd s.cursor.mark else s) rest
        else s
    unroll s s.indents

/-- Go back from indentations that are not those of block collections. -/
def unrollNonBlock (s : Scanner) : Scanner :=
  let rec unroll (s : Scanner) : List Indent → Scanner
    | [] => s
    | i :: rest =>
      if i.isBlock then s else unroll { s with indent := i.indent, indents := rest } rest
  unroll s s.indents

/-- Begin a block collection at a column, unless one is open there. Its token goes to a
    position of the list, or to the end. -/
def rollTo (s : Scanner) (column : Nat) (position : Option Nat) (kind : TokenKind)
    (mark : Mark) : Scanner :=
  if s.inFlow then s
  else
    let s :=
      match s.indents with
      | i :: rest =>
        if s.indent ≤ (column : Int) && !i.isBlock then
          { s with indent := i.indent, indents := rest }
        else s
      | [] => s
    if s.indent < (column : Int) then
      let s := { s with indents := ⟨s.indent, true⟩ :: s.indents, indent := (column : Int) }
      match position with
      | some p => s.insert p kind mark
      | none => s.push kind mark
    else s

/-- Content of a block collection has to be indented by one more column. -/
def rollOne (s : Scanner) : Scanner :=
  match s.indents with
  | i :: _ =>
    if !s.inFlow && i.isBlock then
      { s with indents := ⟨s.indent, false⟩ :: s.indents, indent := s.indent + 1 }
    else s
  | [] => s

/-! ## 3. Blanks between tokens -/

/-- Pass over blanks, comments and line breaks to the next token, in at most so many rounds. A
    line break allows a key outside of flow collections; a tab may not indent a line with
    content. -/
def toNextToken? : Nat → Scanner → Option Scanner
  | 0, s => some s
  | n + 1, s =>
    let c := s.cursor.peek
    if c == '\t' && !s.indents.isEmpty && s.cursor.fresh &&
        (s.cursor.mark.column : Int) < s.indent then do
      let (_, after) ← s.cursor.lineRest? true
      if isLineEndOrEnd after.peek then toNextToken? n { s with cursor := after } else none
    else if isGap c then toNextToken? n { s with cursor := s.cursor.dropBlanks 1 }
    else if isLineEnd c then
      toNextToken? n
        { s with cursor := s.cursor.lineBreak, keyAllowed := s.keyAllowed || !s.inFlow }
    else if c == '#' then toNextToken? n { s with cursor := s.cursor.dropLine }
    else some s

/-- Pass over blanks, comments and line breaks to the next token. -/
def skipBlanks? (s : Scanner) : Option Scanner := toNextToken? (s.cursor.rest.length + 1) s

/-- Pass over the blanks and the comment at the end of the line. -/
def lineRest? (s : Scanner) : Option Scanner := do
  let (_, after) ← s.cursor.lineRest? true
  return { s with cursor := after }

/-! ## 4. Documents -/

/-- End everything that is open in the block structure. -/
def closeBlocks? (s : Scanner) : Option Scanner := do
  return { ← (s.unrollTo (-1)).removeKey? with keyAllowed := false }

/-- The end of the text. It counts as the start of a line. -/
def streamEnd? (s : Scanner) : Option Scanner := do
  let mark := s.cursor.mark
  let mark := if mark.column = 0 then mark else { mark with column := 0, line := mark.line + 1 }
  let keys ← s.keys.mapM PossibleKey.giveUp?
  return (← { s with cursor := { s.cursor with mark }, keys }.closeBlocks?).push .streamEnd mark

/-- A directive. -/
def directive? (s : Scanner) : Option Scanner := do
  let mark := s.cursor.mark
  let s ← s.closeBlocks?
  let (kind, after) ← readDirective? s.cursor
  return { s with cursor := after }.push kind mark

/-- A line that begins or ends a document. -/
def documentMark? (s : Scanner) (kind : TokenKind) : Option Scanner := do
  let mark := s.cursor.mark
  let s ← s.closeBlocks?
  return { s with cursor := s.cursor.drop 3 }.push kind mark

/-- A line that ends a document; nothing else may stand on it. -/
def documentEnd? (s : Scanner) : Option Scanner := do
  let s ← (← s.documentMark? .documentEnd).lineRest?
  if isLineEndOrEnd s.cursor.peek then some s else none

/-! ## 5. Flow collections -/

/-- End a mapping without braces, if one is open. -/
def endBareMapping (s : Scanner) (mark : Mark) : Scanner :=
  if s.bareMapping then
    { s with mappingStarted := false, bareMapping := false }.push .flowMappingEnd mark
  else s

/-- An opening bracket or brace. -/
def flowStart? (s : Scanner) (kind : TokenKind) : Option Scanner := do
  let mark := s.cursor.mark
  let s := s.saveKey.rollOne
  if s.flowLevel < maxFlowLevel then
    let s := { s with
      keys := {} :: s.keys
      flowLevel := s.flowLevel + 1
      keyAllowed := true
      mappingStarted := s.mappingStarted || kind == TokenKind.flowMappingStart
      cursor := s.cursor.drop 1 }
    return (← s.lineRest?).push kind mark
  else none

/-- A closing bracket or brace. -/
def flowEnd? (s : Scanner) (kind : TokenKind) : Option Scanner := do
  let mark := s.cursor.mark
  let s ← s.removeKey?
  let s :=
    if s.inFlow then { s with flowLevel := s.flowLevel - 1, keys := s.keys.tail } else s
  let s := { s with keyAllowed := false }.endBareMapping mark
  let s ← { s with cursor := s.cursor.drop 1 }.lineRest?
  let s := if s.inFlow then { s with adjacentAt := s.cursor.mark.index } else s
  return s.push kind mark

/-- A comma. -/
def flowEntry? (s : Scanner) : Option Scanner := do
  let mark := s.cursor.mark
  let s := { ← s.removeKey? with keyAllowed := true }.endBareMapping mark
  return (← { s with cursor := s.cursor.drop 1 }.lineRest?).push .flowEntry mark

/-! ## 6. Entries, keys and values -/

/-- The last token is an anchor or a tag at the start of a line. -/
def propertyAtLineStart (s : Scanner) : Bool :=
  match s.tokens.getLast? with
  | some ⟨.anchor _, mark⟩ => mark.column == 0
  | some ⟨.tag _, mark⟩ => mark.column == 0
  | _ => false

/-- A hyphen before an item. The token stands where the item may begin. -/
def blockEntry? (s : Scanner) : Option Scanner := do
  let mark := s.cursor.mark
  if s.inFlow || !s.keyAllowed ||
      (mark.column == 0 && s.propertyAtLineStart && -1 < s.indent) then none
  else
    let s := { s with cursor := s.cursor.drop 1 }.rollTo mark.column none .blockSequenceStart mark
    let (gap, after) ← s.cursor.lineRest? true
    if gap.tab && after.peek == '-' && isSeparator (after.peekAt 1) then none
    else
      let s := { s with cursor := after }
      let s := if isLineEnd after.peek || isFlowSign after.peek then s.rollOne else s
      return { ← s.removeKey? with keyAllowed := true }.push .blockEntry after.mark

/-- Pass over blanks, comments and line breaks after a question mark; there has to be one. -/
def keyBlanks? : Nat → Bool → Scanner → Option Scanner
  | 0, found, s => if found then some s else none
  | n + 1, found, s =>
    let c := s.cursor.peek
    if c == ' ' then keyBlanks? n true { s with cursor := s.cursor.dropBlanks 1 }
    else if isLineEnd c then
      keyBlanks? n true
        { s with cursor := s.cursor.lineBreak, keyAllowed := s.keyAllowed || !s.inFlow }
    else if c == '#' then keyBlanks? n found { s with cursor := s.cursor.dropLine }
    else if found then some s
    else none

/-- A question mark before a key. -/
def explicitKey? (s : Scanner) : Option Scanner := do
  let mark := s.cursor.mark
  let s ←
    if s.inFlow then some { s with mappingStarted := true }
    else if s.keyAllowed then some (s.rollTo mark.column none .blockMappingStart mark)
    else none
  let s := { ← s.removeKey? with keyAllowed := !s.inFlow }
  let s := { s with cursor := s.cursor.drop 1 }
  let s ← keyBlanks? (s.cursor.rest.length + 1) false s
  if s.cursor.peek == '\t' then none else return s.push .key mark

/-- What a tab after a colon may not lead to. -/
def tabbedValue (c : Cursor) : Bool := c.peek == '-' || isNameChar c.peek

/-- The colon of a key that was remembered. -/
def valueOfKey? (s : Scanner) (key : PossibleKey) (bare : Bool) (mark : Mark) :
    Option Scanner :=
  let s := s.insert key.position .key key.mark
  if bare && key.mark.line < mark.line then none
  else
    let s := if bare then s.insert key.position .flowMappingStart s.cursor.mark else s
    let s := (s.rollTo key.mark.column (some key.position) .blockMappingStart key.mark).rollOne
    some { s.forgetKey with keyAllowed := false }

/-- The colon of a key that was not remembered: an explicit one, or none at all. -/
def valueAlone? (s : Scanner) (bare : Bool) (mark : Mark) : Option Scanner :=
  let s := if bare then s.push .flowMappingStart s.cursor.mark else s
  if !s.inFlow && !s.keyAllowed then none
  else
    let s := (s.rollTo mark.column none .blockMappingStart mark).rollOne
    some { s with keyAllowed := !s.inFlow }

/-- A colon before a value. -/
def value? (s : Scanner) : Option Scanner := do
  let key := s.key
  let mark := s.cursor.mark
  let bare := s.inFlow && !s.mappingStarted
  let s := { s with bareMapping := bare, cursor := s.cursor.drop 1 }
  let s ←
    if s.cursor.peek == '\t' then do
      let (gap, after) ← s.cursor.lineRest? true
      if !gap.space && tabbedValue after then none else some { s with cursor := after }
    else some s
  let s ← if key.possible then s.valueOfKey? key bare mark else s.valueAlone? bare mark
  return s.push .value mark

/-! ## 7. Nodes -/

/-- An anchor or an alias. -/
def anchor? (s : Scanner) (kind : String → TokenKind) : Option Scanner := do
  let mark := s.cursor.mark
  let s := { s.saveKey with keyAllowed := false }
  let (name, after) ← readAnchor? s.cursor
  return { s with cursor := after }.push (kind name) mark

/-- A tag. -/
def tag? (s : Scanner) : Option Scanner := do
  let mark := s.cursor.mark
  let s := { s.saveKey with keyAllowed := false }
  let (handle, after) ← readTag? s.inFlow s.cursor
  return { s with cursor := after }.push (.tag handle) mark

/-- A block scalar. -/
def block? (s : Scanner) (literal : Bool) : Option Scanner := do
  let s := { s.saveKey with keyAllowed := true }.unrollNonBlock
  let (text, mark, after) ← readBlock? s.indent literal s.cursor
  return { s with cursor := after }.push (.scalar (String.ofList text)) mark

/-- A quoted scalar. A colon right after it is one of its mapping. -/
def quoted? (s : Scanner) : Option Scanner := do
  let mark := s.cursor.mark
  let s := { s.saveKey with keyAllowed := false }
  let (text, after) ← readQuoted? s.indent s.inFlow s.cursor
  let s ← { s with cursor := after }.skipBlanks?
  return { s with adjacentAt := s.cursor.mark.index }.push (.scalar (String.ofList text)) mark

/-- A plain scalar. After one that ended with a line break a key is allowed. -/
def plain? (s : Scanner) : Option Scanner := do
  let mark := s.cursor.mark
  let s := { s.saveKey with keyAllowed := false }.unrollNonBlock
  let (text, after) ← readPlain? (s.indent + 1) s.inFlow s.cursor
  return { s with cursor := after, keyAllowed := after.fresh }.push
    (.scalar (String.ofList text)) mark

/-! ## 8. Any token -/

/-- The token that begins at the cursor. -/
def dispatch? (s : Scanner) : Option Scanner :=
  let c := s.cursor.peek
  let next := s.cursor.peekAt 1
  if c == '[' then s.flowStart? .flowSequenceStart
  else if c == '{' then s.flowStart? .flowMappingStart
  else if c == ']' then s.flowEnd? .flowSequenceEnd
  else if c == '}' then s.flowEnd? .flowMappingEnd
  else if c == ',' then s.flowEntry?
  else if c == '-' && isSeparator next then s.blockEntry?
  else if c == '?' && isSeparator next then s.explicitKey?
  else if c == ':' && (isSeparator next ||
      (s.inFlow && (isFlowSign next || s.cursor.mark.index == s.adjacentAt))) then s.value?
  else if c == '*' then s.anchor? .alias
  else if c == '&' then s.anchor? .anchor
  else if c == '!' then s.tag?
  else if c == '|' && !s.inFlow then s.block? true
  else if c == '>' && !s.inFlow then s.block? false
  else if c == '\'' || c == '"' then s.quoted?
  else if c == '%' || c == '@' || c.toNat == 0x60 then none
  else s.plain?

/-- The text has ended. -/
def isDone (s : Scanner) : Bool :=
  match s.tokens.getLast? with
  | some ⟨.streamEnd, _⟩ => true
  | _ => false

/-- One more token, or several that were pending. -/
def step? (s : Scanner) : Option Scanner := do
  let s ← s.skipBlanks?
  let s := (← s.staleKeys?).unrollTo s.cursor.mark.column
  let c := s.cursor
  if isEnd c.peek then s.streamEnd?
  else if c.mark.column == 0 && c.peek == '%' then s.directive?
  else if c.atIndicator '-' then s.documentMark? .documentStart
  else if c.atIndicator '.' then s.documentEnd?
  else if (c.mark.column : Int) < s.indent then none
  else s.dispatch?

/-- Tokens that are certain: none can be put in before them any more. -/
def certain (s : Scanner) : List Token :=
  let open_ := (s.staleKeys?.getD s).keys.filter PossibleKey.possible
  s.tokens.take (open_.foldl (fun n k => min n k.position) s.tokens.length)

/-- Tokens of a text, in at most so many steps. Every step passes over a character or ends the
    text. -/
def run : Nat → Scanner → List Token
  | 0, s => s.certain
  | n + 1, s =>
    match s.step? with
    | none => s.certain
    | some next => if next.isDone then next.tokens else run n next

end Scanner

/-- Tokens of a text. If they do not end with the end of the text, what follows them cannot be
    read. -/
def scan (text : List Char) : List Token :=
  Scanner.run (text.length + 1) { cursor := { rest := text } }

end FlowExpr.Yaml
