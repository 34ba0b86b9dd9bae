import FlowExpr.Outline.Basic

/-!
# What earlier steps leave behind

The variables that a row of steps leaves to the steps after it. A later declaration of a name
replaces an earlier one. Declarations inside branches count too, where that is switched on: of
a step whose branches all run, in their order; of a step that runs only one of its branches, as
alternatives.

* `declare`: one more declaration, the only one of its name;
* `mergeAlternatives`: the declarations of branches of which one runs;
* `Step.leftBy`, `Step.leftByAll`: the variables left by a step and by a row of steps.
-/

namespace FlowExpr

namespace Declared

/-! ## 1. Later replaces earlier -/

/-- One more declaration, in place of those of its name. -/
def declare (symbols : List Symbol) (symbol : Symbol) : List Symbol :=
  symbols.filter (fun s => s.name != symbol.name) ++ [symbol]

/-- After a declaration there is the new one, and of the others those with another name. -/
theorem mem_declare {symbols : List Symbol} {symbol s : Symbol} :
    s ∈ declare symbols symbol ↔ (s ∈ symbols ∧ s.name ≠ symbol.name) ∨ s = symbol := by
  simp [declare, List.mem_append, List.mem_filter]

/-- Several more declarations, in order. -/
def declareAll (symbols more : List Symbol) : List Symbol := more.foldl declare symbols

@[simp] theorem declareAll_nil (symbols : List Symbol) : declareAll symbols [] = symbols := rfl

@[simp] theorem declareAll_cons (symbols : List Symbol) (symbol : Symbol) (more : List Symbol) :
    declareAll symbols (symbol :: more) = declareAll (declare symbols symbol) more := rfl

/-! ## 2. Alternatives -/

/-- Shapes of two alternatives: side by side, or the only one. -/
def mergeShapes : Option Shape → Option Shape → Option Shape
  | some a, some b => some (a.merge b)
  | a, b => a.or b

/-- A declaration that is also made by another branch. Types that differ are unknown, but what
    has a shape is at least an object. -/
def alternative (first other : Symbol) : Symbol :=
  let shape := mergeShapes first.shape other.shape
  let typeHint := if first.typeHint = other.typeHint then first.typeHint else .unknown
  { first with
    typeHint := if shape.isSome && typeHint == .unknown then .object else typeHint
    shape }

/-- One more alternative: joined to the first declaration of its name, or at the end. -/
def addAlternative (symbol : Symbol) : List Symbol → List Symbol
  | [] => [symbol]
  | s :: rest =>
    if s.name = symbol.name then s.alternative symbol :: rest else s :: addAlternative symbol rest

/-- Declarations of branches of which only one runs. A name that several of them declare keeps
    its first place of declaration. -/
def mergeAlternatives (branches : List (List Symbol)) : List Symbol :=
  branches.flatten.foldl (fun merged symbol => addAlternative symbol merged) []

end Declared

/-! ## 3. Steps -/

namespace Step

mutual

/-- Variables after a step, given those before it. The step's own declarations come last. -/
def leftBy (withBranches : Bool) (before : List Symbol) : Step → List Symbol
  | mk kind _ declarations _ _ branches =>
    let inner :=
      if withBranches then
        if kind.isExclusive then
          Declared.declareAll before
            (Declared.mergeAlternatives (leftByEach withBranches branches))
        else leftByBranches withBranches before branches
      else before
    Declared.declareAll inner declarations

/-- Variables after a row of steps. -/
def leftByAll (withBranches : Bool) (before : List Symbol) : List Step → List Symbol
  | [] => before
  | step :: rest => leftByAll withBranches (step.leftBy withBranches before) rest

/-- Variables after branches that all run. -/
def leftByBranches (withBranches : Bool) (before : List Symbol) :
    List (BranchOf Step) → List Symbol
  | [] => before
  | ⟨_, _, steps⟩ :: rest =>
    leftByBranches withBranches (leftByAll withBranches before steps) rest

/-- Variables that each of several branches declares on its own. -/
def leftByEach (withBranches : Bool) : List (BranchOf Step) → List (List Symbol)
  | [] => []
  | ⟨_, _, steps⟩ :: rest => leftByAll withBranches [] steps :: leftByEach withBranches rest

end

/-- Two rows of steps, one after the other, leave what the second leaves after the first. -/
theorem leftByAll_append (withBranches : Bool) (before : List Symbol) (first second : List Step) :
    leftByAll withBranches before (first ++ second) =
      leftByAll withBranches (leftByAll withBranches before first) second := by
  induction first generalizing before with
  | nil => simp [leftByAll]
  | cons step rest ih => simp only [List.cons_append, leftByAll, ih]

end Step

end FlowExpr
