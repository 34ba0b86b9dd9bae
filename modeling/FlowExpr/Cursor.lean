import FlowExpr.Document
import FlowExpr.Numeral

/-!
# Carets

A place in a document is given as a byte offset, or as a line and a column with a colon between
them. Blanks around the numbers do not count.
-/

namespace FlowExpr

/-- Largest number that a place can be given with, all of 64 bits. -/
def Cursor.largest : Nat := 0xffffffffffffffff

/-- A number with blanks around it. -/
def Cursor.number? (cs : List Char) : Option Nat := Numeral.natural? Cursor.largest (Text.trim cs)

/-- The parts of a text before and after its first colon. -/
def Cursor.parts (cs : List Char) : List Char × Option (List Char) :=
  match cs.dropWhile (· ≠ ':') with
  | [] => (cs, none)
  | _ :: after => (cs.takeWhile (· ≠ ':'), some after)

/-- The byte offset that a text names. An offset may lie outside of the document, a line may
    not. -/
def Document.cursor? (d : Document) (text : String) : Option Nat :=
  match Cursor.parts text.toList with
  | (offset, none) => Cursor.number? offset
  | (line, some column) => do
    d.lines.offset? (← Cursor.number? line) (← Cursor.number? column)

/-- Wording for a text that names no place. -/
def Cursor.invalidMessage (text : String) : String :=
  "Invalid cursor '" ++ text ++ "': expected a byte offset or line:column"

end FlowExpr
