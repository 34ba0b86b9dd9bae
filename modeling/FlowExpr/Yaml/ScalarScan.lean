import FlowExpr.Text.Lines
import FlowExpr.Yaml.Braces
import FlowExpr.Yaml.Scalar

/-!
# The scalars of a document

A pass over the characters of a document that finds its scalars, keys included, and skips
comments. It needs no structure, so it also reads documents that do not load.

* `plainExtent`: how far a scalar without quotes reaches;
* `quotedLength?`: where a quoted scalar closes;
* `blockLines`: the lines of a block scalar;
* `scanFrom`, `scalars`: the pass itself.
-/

namespace FlowExpr.Yaml

/-! ## 1. Plain scalars -/

/-- Space, tab or line break, or no character at all. -/
def blankOrEnd : Option Char → Bool
  | none => true
  | some c => isGapOrLineEnd c

/-- Brackets and comma of a flow collection. -/
def isFlowIndicator (c : Char) : Bool := [',', '[', ']', '{', '}'].contains c

/-- How far a plain scalar reaches on its line: the characters of its content, and of all that
    was looked at. -/
structure Extent where
  content : Nat
  looked : Nat
  deriving DecidableEq, Repr

/-- One more character of content in front. -/
def Extent.contentBefore (e : Extent) : Extent := ⟨e.content + 1, e.looked + 1⟩

/-- A blank in front: content if content follows. -/
def Extent.gapBefore (e : Extent) : Extent :=
  ⟨if e.content = 0 then 0 else e.content + 1, e.looked + 1⟩

/-- Extent of a plain scalar on the rest of its line. It ends at a comment, at a colon before
    a blank, and in a flow collection at an indicator; an embedded expression is taken whole.
    The first number counts characters of such an expression, the second argument is the
    character before. -/
def plainExtent (inFlow : Bool) : Nat → Option Char → List Char → Extent
  | _, _, [] => ⟨0, 0⟩
  | taken + 1, _, c :: cs => (plainExtent inFlow taken (some c) cs).contentBefore
  | 0, before, c :: cs =>
    if opensExpression c cs then
      let more := match expressionLength? (cs.drop 1) with
        | some length => length + 2
        | none => cs.length
      (plainExtent inFlow more (some c) cs).contentBefore
    else if c = '#' && before.any isGapOrLineEnd then ⟨0, 0⟩
    else if c = ':' && blankOrEnd cs.head? then ⟨0, 0⟩
    else if inFlow && isFlowIndicator c then ⟨0, 0⟩
    else if isGap c || c = '\r' then (plainExtent inFlow 0 (some c) cs).gapBefore
    else (plainExtent inFlow 0 (some c) cs).contentBefore

/-! ## 2. Quoted scalars -/

/-- Characters before the closing double quote; a backslash takes the character after it. -/
def doubleQuotedLength? : List Char → Option Nat
  | [] => none
  | '\\' :: cs =>
    match cs with
    | [] => none
    | _ :: rest => (doubleQuotedLength? rest).map (· + 2)
  | c :: cs => if c = '"' then some 0 else (doubleQuotedLength? cs).map (· + 1)

/-- Characters before the closing single quote; a doubled quote closes nothing. -/
def singleQuotedLength? : List Char → Option Nat
  | [] => none
  | '\'' :: '\'' :: cs => (singleQuotedLength? cs).map (· + 2)
  | c :: cs => if c = '\'' then some 0 else (singleQuotedLength? cs).map (· + 1)

/-- Characters before the closing quote. -/
def quotedLength? (quote : Char) (cs : List Char) : Option Nat :=
  if quote = '"' then doubleQuotedLength? cs else singleQuotedLength? cs

/-- Content of a quoted scalar after its opening quote, and the characters taken with the
    closing one. Without a closing quote it ends with its first line. -/
def quotedContent (quote : Char) (cs : List Char) : List Char × Nat :=
  match quotedLength? quote cs with
  | some length => (cs.take length, length + 1)
  | none =>
    let line := cs.takeWhile (· ≠ '\n')
    (if line.getLast? = some '\r' then line.dropLast else line, line.length)

/-! ## 3. Block scalars -/

/-- Leading spaces of a line. -/
def indentOf (line : List Char) : Nat := (line.takeWhile (· == ' ')).length

/-- The line holds nothing but ASCII blanks. -/
def isBlankLine (line : List Char) : Bool :=
  line.all fun c => isGapOrLineEnd c || c == '\x0c'

/-- Lines of a block scalar: those indented deeper than its header's line, and blank ones. -/
def blockLines (indent : Nat) (lines : List (List Char)) : List (List Char) :=
  lines.takeWhile fun line => isBlankLine line || indent < indentOf line

/-- Lines without the blank ones at the end. -/
def withoutBlankEnd (lines : List (List Char)) : List (List Char) :=
  (lines.reverse.dropWhile isBlankLine).reverse

/-- Lines with a line feed between two of them. -/
def joinLines : List (List Char) → List Char
  | [] => []
  | [line] => line
  | line :: rest => line ++ '\n' :: joinLines rest

/-- Content of a block scalar that begins after its header line, and the characters that
    belong to it. -/
def blockContent (indent : Nat) (cs : List Char) : List Char × Nat :=
  let lines := blockLines indent (Lines.split cs)
  let size := (lines.flatMap fun line => line ++ ['\n']).length
  (joinLines (withoutBlankEnd lines), min size cs.length)

/-! ## 4. The pass -/

/-- Where the pass stands: how many flow collections are open, whether a quote, a bracket or a
    block indicator would begin a node here, the character before, and the text from the start
    of the line. -/
structure ScanState where
  flowDepth : Nat
  nodeStart : Bool
  before : Option Char
  line : List Char

/-- What the pass does at a character: the scalar it finds, the further characters it takes,
    and how it goes on. -/
structure ScanStep where
  found : Option Scalar
  taken : Nat
  flowDepth : Nat
  nodeStart : Bool

/-- One character of the pass. -/
def scanStep (s : ScanState) (offset : Nat) (c : Char) (cs : List Char) : ScanStep :=
  let go (taken : Nat) (nodeStart : Bool) : ScanStep := ⟨none, taken, s.flowDepth, nodeStart⟩
  if c = '\n' then go 0 true
  else if isGap c || c = '\r' then go 0 s.nodeStart
  else if c = '#' && blankOrEnd s.before then
    go (cs.takeWhile (· ≠ '\n')).length s.nodeStart
  else if (c = '"' || c = '\'') && s.nodeStart then
    let (content, taken) := quotedContent c cs
    let style := if c = '"' then Style.doubleQuoted else .singleQuoted
    ⟨some ⟨style, offset + 1, content⟩, taken, s.flowDepth, false⟩
  else if (c = '|' || c = '>') && s.nodeStart && s.flowDepth = 0 then
    let header := cs.takeWhile (· ≠ '\n')
    let (content, size) := blockContent (indentOf s.line) (cs.drop (header.length + 1))
    let start := offset + 1 + Text.byteLength (cs.take (header.length + 1))
    ⟨if content.isEmpty then none else some ⟨.block, start, content⟩,
      header.length + 1 + size, 0, true⟩
  else if (c = '-' || c = '?') && s.nodeStart && blankOrEnd cs.head? then go 0 true
  else if c = ':' && (0 < s.flowDepth || blankOrEnd cs.head?) then go 0 true
  else if (c = '[' || c = '{') && s.nodeStart then ⟨none, 0, s.flowDepth + 1, true⟩
  else if (c = ']' || c = '}') && 0 < s.flowDepth then ⟨none, 0, s.flowDepth - 1, false⟩
  else if c = ',' && 0 < s.flowDepth then go 0 true
  else if (c = '&' || c = '!') && s.nodeStart then
    go (cs.takeWhile fun d => !isGapOrLineEnd d).length true
  else
    let line := (c :: cs).takeWhile (· ≠ '\n')
    let extent := plainExtent (0 < s.flowDepth) 0 none line
    ⟨if extent.content = 0 then none else some ⟨.plain, offset, line.take extent.content⟩,
      extent.looked - 1, s.flowDepth, false⟩

/-- Scalars of the rest of a document. The first number counts characters that are already
    taken. -/
def scanFrom : Nat → ScanState → Nat → List Char → List Scalar
  | _, _, _, [] => []
  | taken, s, offset, c :: cs =>
    let line := if c = '\n' then cs else s.line
    match taken with
    | n + 1 => scanFrom n { s with before := some c, line } (offset + c.utf8Size) cs
    | 0 =>
      let step := scanStep s offset c cs
      step.found.toList ++
        scanFrom step.taken ⟨step.flowDepth, step.nodeStart, some c, line⟩
          (offset + c.utf8Size) cs

/-- Every scalar of a document, in order. -/
def scalars (text : List Char) : List Scalar := scanFrom 0 ⟨0, true, none, text⟩ 0 text

end FlowExpr.Yaml
