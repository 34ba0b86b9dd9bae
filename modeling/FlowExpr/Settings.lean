/-!
# Settings

What the analysis takes into account. Everything is switched on unless a settings file says
otherwise.
-/

namespace FlowExpr

/-- Switches of the analysis. -/
structure Settings where
  /-- Declarations inside the branches of earlier steps are visible to later steps. -/
  branchDeclarations : Bool := true
  /-- The functions of the runtime are visible. -/
  builtinFunctions : Bool := true
  /-- The arguments of the process are visible in every flow. -/
  includeArguments : Bool := true
  /-- Names that mean nothing are reported. -/
  unresolvedDiagnostics : Bool := true
  deriving DecidableEq, Repr, Inhabited

end FlowExpr
