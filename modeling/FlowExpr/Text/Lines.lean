import FlowExpr.Text.Basic

/-!
# Lines and columns

A text is also a list of lines, separated by line feeds. Lines and columns count from one, and
a column counts characters, so a position is what an editor shows.

* `Lines.position`: line and column of a byte offset;
* `Lines.offset?`: byte offset of a line and column; a column past the end of its line means
  the end of the line.
-/

namespace FlowExpr

/-- The lines of a text, without their line feeds. -/
structure Lines where
  lines : List (List Char)
  deriving DecidableEq, Repr, Inhabited

namespace Lines

/-- Cut a text at its line feeds. The result is never empty. -/
def split : List Char → List (List Char)
  | [] => [[]]
  | c :: cs =>
    if c = '\n' then [] :: split cs
    else
      match split cs with
      | [] => [[c]]
      | line :: rest => (c :: line) :: rest

/-- A line without a carriage return at its end. -/
def withoutReturn (line : List Char) : List Char :=
  if line.getLast? = some '\r' then line.dropLast else line

/-- The lines as a reader sees them: a carriage return before a line feed belongs to the line
    break, and a line feed at the very end begins no further line. -/
def contents (text : List Char) : List (List Char) :=
  let lines := split text
  let last := lines.getLast?.getD []
  lines.dropLast.map withoutReturn ++ (if last.isEmpty then [] else [last])

/-- The lines of a text. -/
def ofText (text : List Char) : Lines := ⟨split text⟩

/-- Number of lines; an empty text has one. -/
def count (ls : Lines) : Nat := ls.lines.length

/-- Bytes taken by some lines and the line feeds that end them. -/
def bytesThrough (lines : List (List Char)) : Nat :=
  lines.foldr (fun line n => Text.byteLength line + 1 + n) 0

/-- Lines with the offset where each begins, counted from an offset. -/
def startsFrom (offset : Nat) : List (List Char) → List (Nat × List Char)
  | [] => []
  | line :: rest => (offset, line) :: startsFrom (offset + Text.byteLength line + 1) rest

/-- Lines with the offset where each begins. -/
def withStarts (ls : Lines) : List (Nat × List Char) := startsFrom 0 ls.lines

/-- A line by its number. -/
def line? (ls : Lines) (line : Nat) : Option (List Char) :=
  if line = 0 then none else ls.lines[line - 1]?

/-- Offset of the first byte of a line. -/
def start? (ls : Lines) (line : Nat) : Option Nat :=
  if line = 0 || ls.count < line then none
  else some (bytesThrough (ls.lines.take (line - 1)))

/-- Offset where a line ends, before its line feed. -/
def stop? (ls : Lines) (line : Nat) : Option Nat := do
  let start ← ls.start? line
  let content ← ls.line? line
  return start + Text.byteLength content

/-- Column of a byte offset inside a line: one more than the characters before it, or than
    the bytes before it where it falls inside a character. -/
def column (line : List Char) (bytes : Nat) : Nat :=
  match Text.splitBytes? bytes line with
  | some (front, _) => front.length + 1
  | none => bytes + 1

/-- Line and column of a byte offset, counted from the line `number`. -/
def positionFrom (number : Nat) : List (List Char) → Nat → Nat × Nat
  | [], offset => (number, offset + 1)
  | [line], offset => (number, column line (min offset (Text.byteLength line)))
  | line :: next :: rest, offset =>
    if offset ≤ Text.byteLength line then (number, column line offset)
    else positionFrom (number + 1) (next :: rest) (offset - (Text.byteLength line + 1))

/-- Line and column of a byte offset; an offset past the end is read as the end. -/
def position (ls : Lines) (offset : Nat) : Nat × Nat := positionFrom 1 ls.lines offset

/-- Byte offset of a line and column. -/
def offset? (ls : Lines) (line column : Nat) : Option Nat := do
  let start ← ls.start? line
  let content ← ls.line? line
  return start + Text.byteLength (content.take (column - 1))

/-! ## 1. Splitting -/

theorem split_ne_nil (cs : List Char) : split cs ≠ [] := by
  cases cs with
  | nil => simp [split]
  | cons c cs =>
    unfold split
    split
    · simp
    · split <;> simp

/-- A text has at least one line. -/
theorem count_pos (cs : List Char) : 0 < (ofText cs).count :=
  List.length_pos_iff.mpr (split_ne_nil cs)

end Lines

end FlowExpr
