import FlowExpr.Expr.Parser
import FlowExpr.Scope.Reference
import FlowExpr.Scope.Visible

/-!
# Analysis of a document

A document with the settings to analyse it under. Every question is answered from the document
as it is; nothing is kept between questions. A question can be given up: once that is asked
for, whatever has to look into an expression fails.

* `Analysis.Failure`: why a question has no answer;
* `Location`: a range with its line and column;
* `Analysis.expressionAt?`, `Analysis.scopeAt`: what is around an offset.
-/

namespace FlowExpr

/-- A range of a document with the line and column where it begins. -/
structure Location where
  span : Span
  line : Nat
  column : Nat
  deriving DecidableEq, Repr

/-- A document under analysis. -/
structure Analysis where
  document : Document
  settings : Settings := {}
  /-- The questions are to be given up. -/
  cancelled : Bool := false
  deriving Repr

/-- Why a question has no answer. -/
inductive Analysis.Failure where
  | outOfBounds (offset size : Nat)
  | cancelled
  deriving DecidableEq, Repr

/-- Wording of a failure. -/
def Analysis.Failure.message : Analysis.Failure → String
  | outOfBounds offset size =>
    "offset " ++ toString offset ++ " is out of bounds (document length " ++ toString size ++ ")"
  | cancelled => "analysis cancelled"

namespace Analysis

/-- Fails once the questions are to be given up. -/
def checkCancelled (a : Analysis) : Except Failure Unit :=
  if a.cancelled then .error .cancelled else .ok ()

/-- Fails past the end of the document. The end itself is an offset. -/
def checkOffset (a : Analysis) (offset : Nat) : Except Failure Unit :=
  if a.document.size < offset then .error (.outOfBounds offset a.document.size) else .ok ()

/-- The location of a range. -/
def location (a : Analysis) (span : Span) : Location :=
  let (line, column) := a.document.position span.start
  ⟨span, line, column⟩

/-- The expression that a caret is in. -/
def expressionAt? (a : Analysis) (offset : Nat) : Option Embedded :=
  a.document.expressions.find? fun e => e.inner.touches offset

/-- The tree of an expression, with ranges of the document. -/
def parse (e : Embedded) : Parsed := parseMapped e.source e.offsets

/-- The scope at an offset. -/
def scopeAt (a : Analysis) (offset : Nat) : Scope := a.document.scopeAt a.settings offset

/-- What a reference means in the scope around its expression. -/
def resolveIn (scope : Scope) (r : Reference) : Resolution :=
  resolve (scope.withParams r.params) r.node

end Analysis

end FlowExpr
