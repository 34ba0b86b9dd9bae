import FlowExpr.Span
import FlowExpr.Text.Walk

/-!
# Scalars and what they say

A scalar is a piece of a document as it is written, and its style. Decoding undoes the quoting
of the style and remembers for every character where in the document it comes from: a character
that is written as it is comes from its own place, one that an escape or a line break stands
for comes from where that begins.

* `Scalar.pieces`: the decoded characters;
* `Decoded.chars`, `Decoded.offsets`: the text, and the document offset of each of its bytes.
-/

namespace FlowExpr.Yaml

/-- How a scalar is written. -/
inductive Style where
  | plain | singleQuoted | doubleQuoted | block
  deriving DecidableEq, Repr

/-- The content of a scalar as it is written, without quotes or block header, and its place. -/
structure Scalar where
  style : Style
  start : Nat
  raw : List Char
  deriving DecidableEq, Repr

/-- Range of the content. -/
def Scalar.span (s : Scalar) : Span := ⟨s.start, s.start + Text.byteLength s.raw⟩

/-- A decoded character, where it comes from, and whether it stands there as it is. -/
structure Piece where
  char : Char
  source : Nat
  verbatim : Bool
  deriving DecidableEq, Repr

/-- Document offsets of the bytes of a character. -/
def Piece.offsets (p : Piece) : List Nat :=
  if p.verbatim then (List.range p.char.utf8Size).map (p.source + ·)
  else List.replicate p.char.utf8Size p.source

/-! ## 1. Line breaks -/

/-- Space or tab. -/
def isGap (c : Char) : Bool := c == ' ' || c == '\t'

/-- Line feed or carriage return. -/
def isLineEnd (c : Char) : Bool := c == '\n' || c == '\r'

/-- Space, tab or line break. -/
def isGapOrLineEnd (c : Char) : Bool := isGap c || isLineEnd c

/-- Only gaps stand before the next line break. -/
def gapBeforeBreak (cs : List Char) : Bool := (cs.dropWhile isGap).head?.any isLineEnd

/-- A line break inside quotes, with the blanks and breaks after it: one line feed is read as
    a space, more of them as one line feed less. -/
def foldBreak (offset : Nat) (c : Char) (cs : List Char) : List Piece × Nat :=
  let run := cs.takeWhile isGapOrLineEnd
  let breaks := (c :: run).count '\n'
  let chars := if breaks ≤ 1 then [' '] else List.replicate (breaks - 1) '\n'
  (chars.map fun ch => ⟨ch, offset, false⟩, run.length)

/-! ## 2. Single quotes -/

/-- One character between single quotes: a doubled quote is one quote, and blanks before a
    line break are dropped. -/
def singleStep (offset : Nat) (c : Char) (cs : List Char) : List Piece × Nat :=
  if c = '\'' ∧ cs.head? = some '\'' then ([⟨'\'', offset, false⟩], 1)
  else if isLineEnd c then foldBreak offset c cs
  else if isGap c && gapBeforeBreak cs then ([], 0)
  else ([⟨c, offset, true⟩], 0)

/-! ## 3. Double quotes -/

/-- Escapes of one character. -/
def simpleEscapes : List (Char × Char) :=
  [('0', '\x00'), ('a', '\x07'), ('b', '\x08'), ('t', '\t'), ('\t', '\t'), ('n', '\n'),
   ('v', '\x0b'), ('f', '\x0c'), ('r', '\r'), ('e', '\x1b'), (' ', ' '), ('"', '"'),
   ('/', '/'), ('\\', '\\'), ('N', '\u0085'), ('_', '\u00a0'), ('L', '\u2028'),
   ('P', '\u2029')]

/-- Value of a hexadecimal digit. -/
def hexValue? (c : Char) : Option Nat :=
  if '0' ≤ c ∧ c ≤ '9' then some (c.toNat - '0'.toNat)
  else if 'a' ≤ c ∧ c ≤ 'f' then some (c.toNat - 'a'.toNat + 10)
  else if 'A' ≤ c ∧ c ≤ 'F' then some (c.toNat - 'A'.toNat + 10)
  else none

/-- Value of a row of hexadecimal digits. -/
def hexNumber? (digits : List Char) : Option Nat :=
  digits.foldlM (fun value c => (hexValue? c).map (value * 16 + ·)) 0

/-- The character of a code point; surrogates and numbers past the last one have none. -/
def charOf? (n : Nat) : Option Char :=
  if h : n.isValidChar then some (Char.ofNatAux n h) else none

/-- Number of digits of a numeric escape. -/
def hexWidth? (c : Char) : Option Nat :=
  [('x', 2), ('u', 4), ('U', 8)].lookup c

/-- Character that an escape stands for, and the length of the escape after its backslash. -/
def escape? (c : Char) (cs : List Char) : Option (Char × Nat) :=
  match simpleEscapes.lookup c with
  | some decoded => some (decoded, 1)
  | none => do
    let width ← hexWidth? c
    let digits := cs.take width
    if digits.length = width then
      let decoded ← charOf? (← hexNumber? digits)
      return (decoded, width + 1)
    else none

/-- Length of an escaped line break and the blanks that begin the next line. -/
def escapedBreakLength (cs : List Char) : Nat :=
  let returns := cs.takeWhile (· == '\r')
  let afterReturns := cs.drop returns.length
  let feed := if afterReturns.head? = some '\n' then 1 else 0
  returns.length + feed + ((afterReturns.drop feed).takeWhile isGap).length

/-- One character between double quotes: escapes are undone, an escaped line break joins its
    lines, blanks before another line break are dropped, and a backslash that begins no escape
    stands for itself. -/
def doubleStep (offset : Nat) (c : Char) (cs : List Char) : List Piece × Nat :=
  if c = '\\' then
    match cs with
    | [] => ([⟨c, offset, true⟩], 0)
    | next :: rest =>
      if isLineEnd next then ([], escapedBreakLength cs)
      else
        match escape? next rest with
        | some (decoded, length) => ([⟨decoded, offset, false⟩], length)
        | none => ([⟨c, offset, true⟩], 0)
  else if isLineEnd c then foldBreak offset c cs
  else if isGap c && gapBeforeBreak cs then ([], 0)
  else ([⟨c, offset, true⟩], 0)

/-! ## 4. Decoding -/

/-- A character that stands for itself. -/
def verbatimStep (offset : Nat) (c : Char) (_ : List Char) : List Piece × Nat :=
  ([⟨c, offset, true⟩], 0)

/-- The decoded characters of a scalar. -/
def Scalar.pieces (s : Scalar) : List Piece :=
  match s.style with
  | .plain | .block => Text.walk verbatimStep 0 s.start s.raw
  | .singleQuoted => Text.walk singleStep 0 s.start s.raw
  | .doubleQuoted => Text.walk doubleStep 0 s.start s.raw

/-- What a scalar says, and where it ends in the document. -/
structure Decoded where
  pieces : List Piece
  stop : Nat
  deriving DecidableEq, Repr

/-- What a scalar says. -/
def Scalar.decode (s : Scalar) : Decoded := ⟨s.pieces, s.span.stop⟩

namespace Decoded

/-- The text. -/
def chars (d : Decoded) : List Char := d.pieces.map Piece.char

/-- Document offset of every byte of the text, and of its end. -/
def offsets (d : Decoded) : List Nat := d.pieces.flatMap Piece.offsets ++ [d.stop]

end Decoded

end FlowExpr.Yaml
