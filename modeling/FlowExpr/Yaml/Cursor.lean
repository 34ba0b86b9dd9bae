import FlowExpr.Yaml.Scalar

/-!
# Reading a document character by character

A cursor is the rest of a document, the place where it begins, and whether only blanks stand
before it on its line. The end of a document reads as the character with number zero, and so
does that character itself: a document ends there.

* `Cursor.drop`: pass over characters of one line;
* `Cursor.lineBreak`: pass over a line break, two characters or one;
* `Cursor.lineRest?`: pass over blanks and a comment at the end of a line.
-/

namespace FlowExpr.Yaml

/-- A place in a document: characters before it, its line from one, and the characters before
    it on that line. -/
structure Mark where
  index : Nat := 0
  line : Nat := 1
  column : Nat := 0
  deriving DecidableEq, Repr, Inhabited

/-- The rest of a document. -/
structure Cursor where
  rest : List Char
  mark : Mark := {}
  fresh : Bool := true
  deriving DecidableEq, Repr

/-! ## 1. Classes of characters -/

/-- The end of the document. -/
def isEnd (c : Char) : Bool := c == '\x00'

/-- Line break or end. -/
def isLineEndOrEnd (c : Char) : Bool := isLineEnd c || isEnd c

/-- Blank, line break or end. -/
def isSeparator (c : Char) : Bool := isGap c || isLineEndOrEnd c

/-- Brackets, braces and comma. -/
def isFlowSign (c : Char) : Bool := [',', '[', ']', '{', '}'].contains c

/-- Letters, digits, underscore and hyphen. -/
def isNameChar (c : Char) : Bool := Text.isAsciiLetter c || Text.isDigit c || c == '_' || c == '-'

namespace Cursor

/-! ## 2. Looking -/

/-- The character some places ahead. -/
def peekAt (c : Cursor) (n : Nat) : Char := (c.rest[n]?).getD '\x00'

/-- The next character. -/
def peek (c : Cursor) : Char := c.peekAt 0

/-- Three equal characters and a separator at the start of a line. -/
def atIndicator (c : Cursor) (sign : Char) : Bool :=
  c.mark.column == 0 && c.peek == sign && c.peekAt 1 == sign && c.peekAt 2 == sign &&
    isSeparator (c.peekAt 3)

/-- The line begins or ends a document. -/
def atDocumentMark (c : Cursor) : Bool := c.atIndicator '-' || c.atIndicator '.'

/-! ## 3. Passing over -/

/-- Pass over characters of the line, which count as blanks. -/
def dropBlanks (c : Cursor) (n : Nat) : Cursor :=
  { c with
    rest := c.rest.drop n
    mark := { c.mark with index := c.mark.index + n, column := c.mark.column + n } }

/-- Pass over characters of the line, which count as content. -/
def drop (c : Cursor) (n : Nat) : Cursor := { c.dropBlanks n with fresh := false }

/-- Pass over a line break. -/
def lineBreak (c : Cursor) : Cursor :=
  let size := if c.peek == '\r' && c.peekAt 1 == '\n' then 2 else 1
  { rest := c.rest.drop size
    mark := ⟨c.mark.index + size, c.mark.line + 1, 0⟩
    fresh := true }

/-- The longest run of characters of a class, and what follows. -/
def takeWhile (c : Cursor) (p : Char → Bool) : List Char × Cursor :=
  let run := c.rest.takeWhile p
  (run, c.drop run.length)

/-- Pass over the blanks of a class. -/
def dropBlanksWhile (c : Cursor) (p : Char → Bool) : Cursor :=
  c.dropBlanks (c.rest.takeWhile p).length

/-- Pass over the rest of the line, which counts as content. -/
def dropLine (c : Cursor) : Cursor := (c.takeWhile fun ch => !isLineEndOrEnd ch).2

/-- Blanks that were passed over. -/
structure Gap where
  tab : Bool
  space : Bool

/-- Pass over the blanks and the comment that end a line. Tabs count as blanks only where they
    are allowed; a comment without a blank before it is refused. -/
def lineRest? (c : Cursor) (tabs : Bool) : Option (Gap × Cursor) :=
  let run := c.rest.takeWhile fun ch => ch == ' ' || (tabs && ch == '\t')
  let gap : Gap := ⟨run.contains '\t', run.contains ' '⟩
  let after := c.dropBlanks run.length
  if after.peek == '#' then
    if run.isEmpty then none else some (gap, after.dropLine)
  else some (gap, after)

end Cursor

end FlowExpr.Yaml
