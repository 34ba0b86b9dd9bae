import FlowExpr.Document
import FlowExpr.Scope.Basic
import FlowExpr.Scope.Earlier
import FlowExpr.Settings

/-!
# What is visible at an offset

The scope at an offset of a document, from the inside out: the result of a task where its
outcome is stored, the variables of a loop, and what earlier steps left behind, once more for
every branch on the way outward; then the documented inputs of the flow, the arguments of the
process, and what the runtime provides. A step never sees its own declarations.

* `Step.current?`: the step of a row that an offset belongs to;
* `Step.earlier`: the steps of a row that are over at an offset;
* `Document.scopeAt`: the whole scope.
-/

namespace FlowExpr

namespace Step

/-! ## 1. The steps of a row -/

/-- Number of the step that contains an offset; the end of the last step belongs to it. -/
def current? (offset : Nat) (steps : List Step) : Option Nat :=
  (steps.findIdx? fun s => s.span.contains offset).or
    ((steps.getLast?.filter fun s => s.span.stop == offset).map fun _ => steps.length - 1)

/-- The steps before the one that an offset belongs to; between steps, those that are over. -/
def earlier (offset : Nat) (steps : List Step) : List Step :=
  match current? offset steps with
  | some index => steps.take index
  | none => steps.takeWhile fun s => s.span.stop ≤ offset

/-- The layer of what the earlier steps of a row left behind, if that is anything. -/
def earlierLayer (settings : Settings) (offset : Nat) (steps : List Step) : List Layer :=
  match leftByAll settings.branchDeclarations [] (earlier offset steps) with
  | [] => []
  | symbols => [.declaredVariables symbols]

/-! ## 2. Layers -/

/-- The layers that a step itself adds. -/
def ownLayers (offset : Nat) (kind : StepKind) (outSpan : Option Span) (hasLoop : Bool) :
    List Layer :=
  (if kind.isTask && outSpan.any fun span => span.touches offset then [Layer.taskResult]
    else []) ++ (if hasLoop then [Layer.loop] else [])

mutual

/-- Layers at an offset inside a step: those of the branch that it is in, then its own. -/
def layersIn (settings : Settings) (offset : Nat) : Step → List Layer
  | mk kind _ _ outSpan hasLoop branches =>
    layersInBranches settings offset branches ++ ownLayers offset kind outSpan hasLoop

/-- Layers at an offset in the first branch that it touches. -/
def layersInBranches (settings : Settings) (offset : Nat) : List (BranchOf Step) → List Layer
  | [] => []
  | ⟨_, span, steps⟩ :: rest =>
    if span.touches offset then
      layersAt settings offset (current? offset steps) steps ++
        earlierLayer settings offset steps
    else layersInBranches settings offset rest

/-- Layers at an offset inside the step of the given number. -/
def layersAt (settings : Settings) (offset : Nat) : Option Nat → List Step → List Layer
  | some 0, step :: _ => step.layersIn settings offset
  | some (n + 1), _ :: rest => layersAt settings offset (some n) rest
  | _, _ => []

end

/-- Layers at an offset in a row of steps, innermost first. -/
def layers (settings : Settings) (offset : Nat) (steps : List Step) : List Layer :=
  layersAt settings offset (current? offset steps) steps ++ earlierLayer settings offset steps

end Step

namespace Document

/-! ## 3. Scopes -/

/-- The layers of a flow: its steps, then its documented inputs. -/
def flowLayers (settings : Settings) (offset : Nat) (flow : Flow) : List Layer :=
  Step.layers settings offset flow.steps ++
    (if flow.parameters.isEmpty then [] else [.flowParameters flow.parameters])

/-- The layer of the arguments, where they are taken into account and there are any. -/
def argumentLayer (d : Document) (settings : Settings) : List Layer :=
  if settings.includeArguments && !d.arguments.isEmpty then [.arguments d.arguments] else []

/-- The scope at an offset, without parameters of lambdas. -/
def scopeAt (d : Document) (settings : Settings) (offset : Nat) : Scope where
  layers := ((d.flowAt? offset).map (flowLayers settings offset)).getD [] ++
    argumentLayer d settings ++ [.builtinContext]
  hasFunctions := settings.builtinFunctions

end Document

end FlowExpr
