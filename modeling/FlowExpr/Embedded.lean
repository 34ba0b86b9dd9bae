import FlowExpr.Yaml.ScalarScan

/-!
# Embedded expressions

Expressions stand in the scalars of a document, between a dollar sign with an opening brace and
the closing brace. The quoting of the scalar is undone first, and the search for the closing
brace never leaves the scalar. A backslash before the dollar sign makes it plain text.

* `Embedded.inScalar`: the expressions of one scalar;
* `embedded`: those of a whole document, in order.
-/

namespace FlowExpr

open Yaml

/-- An expression of a document: the range with its delimiters, the range of the expression,
    whether it was closed, its decoded text, and the document offset of each byte of that text
    and of its end. -/
structure Embedded where
  span : Span
  inner : Span
  terminated : Bool
  source : List Char
  offsets : List Nat
  deriving DecidableEq, Repr

namespace Embedded

/-- Document offset where a row of pieces begins; an empty row begins where the scalar ends. -/
def offsetOf (stop : Nat) : List Piece → Nat
  | [] => stop
  | p :: _ => p.source

/-- An expression whose content begins a row of pieces: the pieces that belong to it, with
    where it ends. An open one ends with its line. -/
def region (start stop : Nat) (content : List Piece) : Embedded × Nat :=
  let chars := content.map Piece.char
  match expressionLength? chars with
  | some length =>
    let inner := content.take length
    let innerStop := offsetOf stop (content.drop length)
    (⟨⟨start, offsetOf stop (content.drop (length + 1))⟩, ⟨offsetOf stop content, innerStop⟩,
      true, chars.take length, inner.flatMap Piece.offsets ++ [innerStop]⟩, length + 1)
  | none =>
    let line := chars.takeWhile (· ≠ '\n')
    let length := ((line.reverse.dropWhile (· == '\r')).reverse).length
    let innerStop := offsetOf stop (content.drop length)
    (⟨⟨start, innerStop⟩, ⟨offsetOf stop content, innerStop⟩,
      false, chars.take length, (content.take length).flatMap Piece.offsets ++ [innerStop]⟩,
      line.length)

/-- Expressions in a row of pieces. The first number counts pieces that are already taken, the
    second argument is the character before. -/
def inPieces (stop : Nat) : Nat → Option Char → List Piece → List Embedded
  | _, _, [] => []
  | taken + 1, _, p :: rest => inPieces stop taken (some p.char) rest
  | 0, before, p :: rest =>
    if p.char = '$' && (rest.head?.map Piece.char) = some '{' && before ≠ some '\\' then
      let (found, size) := region p.source stop (rest.drop 1)
      found :: inPieces stop (size + 1) (some p.char) rest
    else inPieces stop 0 (some p.char) rest

/-- Expressions of a scalar. -/
def inScalar (scalar : Scalar) : List Embedded :=
  let decoded := scalar.decode
  inPieces decoded.stop 0 none decoded.pieces

end Embedded

/-- Every expression of a document, in order. -/
def embedded (text : List Char) : List Embedded := (scalars text).flatMap Embedded.inScalar

end FlowExpr
