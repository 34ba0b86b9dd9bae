import FlowExpr.Token.Lexer

/-!
# Diagnostics of an expression

What can be wrong with an expression, where, and the words for it. Reading always goes on, so
an expression has a list of diagnostics beside its tree.
-/

namespace FlowExpr

/-- What stood in the place of something unexpected. -/
inductive Expected where
  | expression
  | colon
  | endOfExpression
  deriving DecidableEq, Repr

/-- Wording of what was expected. -/
def Expected.describe : Expected → String
  | expression => "expression"
  | colon => "':'"
  | endOfExpression => "end of expression"

/-- Causes of a diagnostic. -/
inductive Problem where
  | unexpectedToken (expected : Expected) (found : TokenKind)
  | missingPropertyName
  | unclosed (delimiter : Char)
  | assignment
  | emptyExpression
  | tooDeeplyNested
  | lexical (error : LexError)
  deriving DecidableEq, Repr

/-- Wording of a cause. -/
def Problem.message : Problem → String
  | unexpectedToken expected found =>
    "expected " ++ expected.describe ++ ", found " ++ found.describe
  | missingPropertyName => "expected property name after '.'"
  | unclosed delimiter => "missing closing '" ++ String.singleton delimiter ++ "'"
  | assignment => "assignment is not supported in expressions"
  | emptyExpression => "empty expression"
  | tooDeeplyNested => "expression is nested too deeply"
  | lexical error => error.fault.message

/-- A cause and its place. -/
structure Diagnostic where
  span : Span
  problem : Problem
  deriving DecidableEq, Repr

namespace Diagnostic

/-- Wording of a diagnostic. -/
def message (d : Diagnostic) : String := d.problem.message

/-- An error of reading tokens as a diagnostic. -/
def ofLexError (e : LexError) : Diagnostic := ⟨e.span, .lexical e⟩

/-- Diagnostics by where they begin; those with one beginning stay in their order. -/
def sort (ds : List Diagnostic) : List Diagnostic :=
  ds.mergeSort fun a b => a.span.start ≤ b.span.start

end Diagnostic

end FlowExpr
