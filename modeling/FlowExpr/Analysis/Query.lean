import FlowExpr.Analysis.Finding
import FlowExpr.Analysis.Navigation
import FlowExpr.Symbol.Listing

/-!
# Questions and reports as structured values

* `Query.answer`: a question about an offset, answered as a structured value with its fields in
  the order of their names;
* `ExpressionReport`: the check of a single expression;
* `tokenListing`: the tokens of an expression.
-/

namespace FlowExpr

/-! ## 1. Questions about an offset -/

/-- A location as a structured value. -/
def Location.json (l : Location) : Json :=
  .object [("span", l.span.json), ("line", .ofNat l.line), ("column", .ofNat l.column)]

/-- What a name means as a structured value. -/
def Resolution.json : Resolution → Json
  | resolved symbol => .object [("status", .text "resolved"), ("symbols", symbol.json)]
  | ambiguous symbols => .object [("status", .text "ambiguous"), ("symbols", symbolsJson symbols)]
  | unresolved => .object [("status", .text "unresolved")]

/-- A question about an offset. -/
inductive Query where
  | complete | goto | usages | resolve
  deriving DecidableEq, Repr

/-- The answer to a question about an offset. -/
def Query.answer (a : Analysis) (offset : Nat) : Query → Except Analysis.Failure Json
  | complete => do return (symbolsJson (← a.completionsAt offset)).sorted
  | goto => do return (Json.ofOption Location.json (← a.declarationAt offset)).sorted
  | usages => do return (Json.list ((← a.usagesAt offset).map Location.json)).sorted
  | resolve => do return (← a.resolveAt offset).json.sorted

/-- A finding as a structured value. -/
def Finding.json (f : Finding) : Json :=
  .object [("span", f.location.span.json), ("line", .ofNat f.location.line),
    ("column", .ofNat f.location.column), ("severity", .text f.severity.name),
    ("message", .text f.message)]

/-! ## 2. Single expressions -/

/-- The check of a single expression: its tree, and what is wrong with it. -/
structure ExpressionReport where
  tree : String
  diagnostics : List Diagnostic
  deriving Repr

namespace ExpressionReport

/-- The check of an expression without delimiters. -/
def ofSource (source : String) : ExpressionReport :=
  let parsed := parseExpression source.toList 0
  ⟨parsed.root.render, parsed.diagnostics⟩

/-- Nothing is wrong. -/
def isValid (r : ExpressionReport) : Bool := r.diagnostics.isEmpty

/-- The report as a structured value. -/
def json (r : ExpressionReport) : Json :=
  .object [("tree", .text r.tree),
    ("diagnostics", .list (r.diagnostics.map fun d =>
      .object [("span", d.span.json), ("message", .text d.message)]))]

/-- The report for a reader: the tree, then one line for each problem. -/
def lines (r : ExpressionReport) : List String :=
  r.tree :: r.diagnostics.map fun d =>
    toString d.span.start ++ ".." ++ toString d.span.stop ++ ": error: " ++ d.message

end ExpressionReport

/-- The tokens of an expression without delimiters, the end included. -/
def sourceTokens (source : String) : List Token := (lex source.toList 0).tokens

/-- Tokens as a structured value. -/
def tokenListing (tokens : List Token) : Json :=
  .list (tokens.map fun t =>
    .object [("kind", .text t.kind.category), ("text", .text t.text), ("span", t.span.json)])

end FlowExpr
