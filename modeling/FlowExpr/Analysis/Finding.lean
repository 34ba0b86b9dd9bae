import FlowExpr.Analysis.Basic

/-!
# Findings

What is wrong with a document: a structure that cannot be read, expressions that are not closed
or not well formed, and, as warnings, names that mean nothing. Properties are not reported,
since too often nothing is known of the value that they belong to.
-/

namespace FlowExpr

/-- How bad a finding is. -/
inductive Severity where
  | error | warning
  deriving DecidableEq, Repr

/-- The severity as reports show it. -/
def Severity.name : Severity → String
  | error => "error"
  | warning => "warning"

/-- Something wrong at a range of a document. -/
structure Finding where
  location : Location
  severity : Severity
  message : String
  deriving DecidableEq, Repr

/-- The finding in one line. -/
def Finding.report (path : String) (f : Finding) : String :=
  path ++ ":" ++ toString f.location.line ++ ":" ++ toString f.location.column ++ ": " ++
    f.severity.name ++ ": " ++ f.message

namespace Analysis

/-- A finding at a range. -/
def finding (a : Analysis) (severity : Severity) (span : Span) (message : String) : Finding :=
  ⟨a.location span, severity, message⟩

/-- What to say of a node that means nothing: only names and calls of bare names are worth a
    warning. -/
def unresolvedMessage? : Expr → Option String
  | .identifier name _ => some ("unresolved variable '" ++ name ++ "'")
  | .call (.identifier name _) _ _ => some ("unresolved function '" ++ name ++ "'")
  | _ => none

/-- The expression is not closed. -/
def openFinding (a : Analysis) (e : Embedded) : List Finding :=
  if e.terminated then []
  else [a.finding .error e.span "unterminated expression: missing '\x7d'"]

/-- Names of an expression that mean nothing where it begins. -/
def unresolvedFindings (a : Analysis) (e : Embedded) (root : Expr) : List Finding :=
  let scope := a.scopeAt e.inner.start
  (references root).filterMap fun r => do
    let message ← unresolvedMessage? r.node
    if (resolveIn scope r).isUnresolved then some (a.finding .warning r.nameSpan message)
    else none

/-- Findings of an expression. -/
def findingsIn (a : Analysis) (e : Embedded) : Except Failure (List Finding) := do
  a.checkCancelled
  let parsed := parse e
  return a.openFinding e ++
    (parsed.diagnostics.map fun d => a.finding .error d.span d.message) ++
    (if a.settings.unresolvedDiagnostics then a.unresolvedFindings e parsed.root else [])

/-- Findings of the document: why its structure cannot be read, then by expression. -/
def findings (a : Analysis) : Except Failure (List Finding) := do
  let load := a.document.loadError.toList.map fun e =>
    a.finding .error (Span.empty 0) e.report
  let inner ← a.document.expressions.mapM a.findingsIn
  return load ++ inner.flatten

end Analysis

end FlowExpr
