import FlowExpr.Analysis.Basic

/-!
# Navigation and completion

Questions about one offset, and the usages of a symbol.

* `Analysis.resolveAt`: what the name at an offset means;
* `Analysis.declarationAt`: where it is declared;
* `Analysis.completionsAt`: what could stand there;
* `Analysis.symbolAt`: what is declared there;
* `Analysis.usages`, `Analysis.usagesAt`: where a symbol is used.
-/

namespace FlowExpr.Analysis

/-! ## 1. The name at an offset -/

/-- What the name at an offset means. Outside of expressions that is nothing. -/
def resolveAt (a : Analysis) (offset : Nat) : Except Failure Resolution := do
  a.checkOffset offset
  match a.expressionAt? offset with
  | none => return .unresolved
  | some e =>
    a.checkCancelled
    match locate? (parse e).root offset with
    | none => return .unresolved
    | some r => return resolveIn (a.scopeAt offset) r

/-- Where the name at an offset is declared, unless the runtime provides it. -/
def declarationAt (a : Analysis) (offset : Nat) : Except Failure (Option Location) := do
  let found ← a.resolveAt offset
  return (found.symbol?.bind fun s => s.declaredAt.span?).map a.location

/-- What could stand at an offset, whatever is already typed there. -/
def completionsAt (a : Analysis) (offset : Nat) : Except Failure (List Symbol) := do
  a.checkOffset offset
  match a.expressionAt? offset with
  | none => return []
  | some e =>
    a.checkCancelled
    let scope := a.scopeAt offset
    match locate? (parse e).root offset with
    | none => return scopeCandidates scope
    | some r => return candidates (scope.withParams r.params) r.node

/-! ## 2. Usages -/

/-- The symbol that is declared at an offset. -/
def symbolAt (a : Analysis) (offset : Nat) : Except Failure (Option Symbol) := do
  a.checkOffset offset
  return a.document.declarations.find? fun s =>
    s.declaredAt.span?.any fun span => span.touches offset

/-- Ranges of an expression that refer to a symbol, in the scope where the expression begins. -/
def usagesIn (a : Analysis) (symbol : Symbol) (e : Embedded) : List Location :=
  let scope := a.scopeAt e.inner.start
  let used := (references (parse e).root).filter fun r =>
    (resolveIn scope r).symbol?.any fun found => found.same symbol
  used.map fun r => a.location r.nameSpan

/-- Ranges of the document that refer to a symbol. There are none once they are not asked for
    any more. -/
def usages (a : Analysis) (symbol : Symbol) : List Location :=
  if a.cancelled then [] else a.document.expressions.flatMap (a.usagesIn symbol)

/-- Usages of the symbol that is declared at an offset or that the name there means. -/
def usagesAt (a : Analysis) (offset : Nat) : Except Failure (List Location) := do
  let declared ← a.symbolAt offset
  let symbol ← match declared with
    | some s => pure (some s)
    | none => Resolution.symbol? <$> a.resolveAt offset
  match symbol with
  | none => return []
  | some s =>
    a.checkCancelled
    return a.usages s

end FlowExpr.Analysis
