import FlowExpr.FlowDoc

/-!
# Flows, steps and branches

What scopes need to know of a document: its flows with their documentation, the steps of each
flow with the variables they declare, and the branches that steps own.
-/

namespace FlowExpr

/-- What a step does. -/
inductive StepKind where
  | task (name : String)
  | call (flow : String)
  | set | ifElse | switch | tryCatch | block | parallel | other
  deriving DecidableEq, Repr

/-- Only one of the branches runs. -/
def StepKind.isExclusive : StepKind → Bool
  | ifElse | switch | tryCatch => true
  | _ => false

/-- The step calls a task. -/
def StepKind.isTask : StepKind → Bool
  | task _ => true
  | _ => false

/-- A list of steps that a step owns, under its key. -/
structure BranchOf (σ : Type) where
  label : String
  span : Span
  steps : List σ
  deriving Repr

/-- A step: what it does, where it stands, the variables it declares, the range of its `out`
    entry, whether it loops, and its branches. -/
inductive Step where
  | mk (kind : StepKind) (span : Span) (declarations : List Symbol) (outSpan : Option Span)
    (hasLoop : Bool) (branches : List (BranchOf Step))
  deriving Repr

/-- A branch of a step. -/
abbrev Branch := BranchOf Step

namespace Step

/-- What the step does. -/
def kind : Step → StepKind | mk k _ _ _ _ _ => k

/-- Range of the step. -/
def span : Step → Span | mk _ s _ _ _ _ => s

/-- Variables that the step declares. -/
def declarations : Step → List Symbol | mk _ _ d _ _ _ => d

/-- Range of the step's `out` entry. -/
def outSpan : Step → Option Span | mk _ _ _ o _ _ => o

/-- The step loops. -/
def hasLoop : Step → Bool | mk _ _ _ _ l _ => l

/-- Branches of the step. -/
def branches : Step → List Branch | mk _ _ _ _ _ b => b

mutual

/-- Declarations of a step, then of its branches. -/
def allDeclarations : Step → List Symbol
  | mk _ _ declarations _ _ branches => declarations ++ branchDeclarations branches

/-- Declarations of several branches. -/
def branchDeclarations : List (BranchOf Step) → List Symbol
  | [] => []
  | ⟨_, _, steps⟩ :: rest => stepDeclarations steps ++ branchDeclarations rest

/-- Declarations of several steps. -/
def stepDeclarations : List Step → List Symbol
  | [] => []
  | step :: rest => step.allDeclarations ++ stepDeclarations rest

end

end Step

/-- A flow: its name and key, its range up to the next flow, its steps, and its documentation
    with the inputs as symbols. -/
structure Flow where
  name : String
  keySpan : Span
  span : Span
  steps : List Step
  doc : Option FlowDoc
  parameters : List Symbol
  deriving Repr

end FlowExpr
