import FlowExpr.Outline.Basic
import FlowExpr.Outline.Place
import FlowExpr.Symbol.Builtin

/-!
# The outline of a document

From the placed structure of a document to its flows and arguments. A step runs from its first
key to the next step, an entry from its key to the next key.

* `Outline.symbolsOf`: the keys of a mapping as symbols, with the types of their values;
* `Outline.stepsOf`: the steps of a sequence;
* `Outline.ofNode`: arguments and flows of a document.
-/

namespace FlowExpr

/-- Arguments and flows of a document. -/
structure Outline where
  arguments : List Symbol := []
  flows : List Flow := []
  deriving Repr

namespace Outline

/-! ## 1. Symbols of mappings -/

mutual

/-- What is known of a value: its type, and for a mapping its properties. -/
def infer (origin : Origin) : Placed → TypeHint × Option Shape
  | .scalar _ text => (TypeHint.ofScalar text.toList, none)
  | .sequence _ _ => (.collection, none)
  | .mapping _ entries => (.object, some (Shape.ofSymbols (symbolsFrom origin [] entries)))

/-- The keys of a mapping as symbols, after those found before. Dotted keys declare paths. -/
def symbolsFrom (origin : Origin) (found : List Symbol) : List (Entry Placed) → List Symbol
  | [] => found
  | ⟨keySpan, key, value⟩ :: rest =>
    let (hint, shape) := infer origin value
    symbolsFrom origin
      (Declared.declarePath found key ⟨key, .document keySpan, hint, origin, none, shape⟩) rest

end

/-- The keys of a mapping as symbols; other values have none. -/
def symbolsOf (origin : Origin) : Placed → List Symbol
  | .mapping _ entries => symbolsFrom origin [] entries
  | _ => []

/-! ## 2. Declarations of steps -/

/-- Documentation of the flows of a document, by name. -/
abbrev Docs := List (String × FlowDoc)

/-- The scalars of a node with their ranges: itself, or the items of a sequence. -/
def outNames : Placed → List (String × Span)
  | .scalar span text => (span.map fun s => (text, s)).toList
  | .sequence _ items => items.filterMap fun item =>
    match item with
    | .scalar span text => span.map fun s => (text, s)
    | _ => none
  | .mapping _ _ => []

/-- Symbol of a variable that stores the outcome of a step. A call gives the documented output
    of its flow, a task its result. -/
def outSymbol (docs : Docs) (kind : StepKind) (name : String) (span : Span) : Symbol :=
  let plain (hint : TypeHint) (shape : Option Shape) : Symbol :=
    ⟨name, .document span, hint, .stepOut, none, shape⟩
  match kind with
  | .call flow =>
    match (docs.lookup flow).bind fun doc => Declared.find? doc.outputSymbols name with
    | some symbol => { symbol with declaredAt := .document span }
    | none => plain .unknown none
  | .task _ => plain .object Builtin.taskResult.shape
  | _ => plain .unknown none

/-- Declarations of an `out` entry, after those found before. -/
def outDeclarations (docs : Docs) (kind : StepKind) (found : List Symbol) (value : Placed) :
    List Symbol :=
  match value with
  | .mapping _ _ =>
    (symbolsOf .stepOut value).foldl (fun acc s => Declared.declarePath acc s.name s) found
  | _ =>
    (outNames value).foldl
      (fun acc (name, span) => Declared.declarePath acc name (outSymbol docs kind name span))
      found

/-- Declarations of the entries of a step, in their order. -/
def declarationsOf (docs : Docs) (kind : StepKind) (entries : List (Entry Placed)) :
    List Symbol :=
  entries.foldl
    (fun found entry =>
      if entry.key = "set" then
        match entry.value with
        | .mapping _ assigned => symbolsFrom .setStep found assigned
        | _ => found
      else if entry.key = "out" then outDeclarations docs kind found entry.value
      else found) []

/-! ## 3. Steps -/

/-- Text of a scalar; other nodes have none. -/
def scalarText : Placed → String
  | .scalar _ text => text
  | _ => ""

/-- The kind that a key gives its step. -/
def kindOf? (entry : Entry Placed) : Option StepKind :=
  if entry.key = "task" then some (.task (scalarText entry.value))
  else if entry.key = "call" then some (.call (scalarText entry.value))
  else [("set", StepKind.set), ("if", .ifElse), ("switch", .switch), ("try", .tryCatch),
    ("block", .block), ("parallel", .parallel)].lookup entry.key

/-- The kind of a step, by the first key that gives one. -/
def stepKind (entries : List (Entry Placed)) : StepKind := (entries.findSome? kindOf?).getD .other

/-- Keys whose lists are branches in every step. -/
def branchKeys : List String := ["then", "else", "try", "error", "block", "parallel"]

/-- Keys that mean something else in every step. -/
def reservedKeys : List String := ["set", "out", "loop", "withItems"]

/-- The key owns a branch. Under a switch every other list is one of its cases. -/
def isBranchKey (kind : StepKind) (key : String) : Bool :=
  !reservedKeys.contains key &&
    (branchKeys.contains key || (kind == .switch && key != "switch"))

/-- The step loops. -/
def loops (entries : List (Entry Placed)) : Bool :=
  entries.any fun entry => entry.key == "loop" || entry.key == "withItems"

mutual

/-- Steps of the items of a sequence that ends at an offset. An item without a place is
    skipped. -/
def stepsOf (docs : Docs) (stop : Nat) : List Placed → List Step
  | [] => []
  | item :: rest =>
    match item.start? with
    | none => stepsOf docs stop rest
    | some start =>
      let next := (rest.findSome? Placed.start?).getD stop
      stepOf docs ⟨start, max next start⟩ item :: stepsOf docs stop rest

/-- The step of an item. -/
def stepOf (docs : Docs) (span : Span) : Placed → Step
  | .mapping _ entries =>
    let kind := stepKind entries
    .mk kind span (declarationsOf docs kind entries)
      ((Entry.find? "out" span.stop entries).map Prod.snd) (loops entries)
      (branchesOf docs kind span.stop entries)
  | _ => .mk .other span [] none false []

/-- Branches among the entries of a step that ends at an offset. -/
def branchesOf (docs : Docs) (kind : StepKind) (stop : Nat) :
    List (Entry Placed) → List (BranchOf Step)
  | [] => []
  | ⟨keySpan, key, value⟩ :: rest =>
    match value with
    | .sequence _ items =>
      if isBranchKey kind key then
        let span := Entry.range keySpan (rest.head?.map Entry.keySpan) stop
        ⟨key, span, stepsOf docs span.stop items⟩ :: branchesOf docs kind stop rest
      else branchesOf docs kind stop rest
    | _ => branchesOf docs kind stop rest

end

/-! ## 4. Flows -/

/-- Documentation of the flows, each above its key. -/
def docsOf (lines : Lines) (entries : List (Entry Placed)) : Docs :=
  entries.filterMap fun entry =>
    (FlowDoc.above? lines (lines.position entry.keySpan.start).1).map fun doc => (entry.key, doc)

/-- Flows of the entries of a section that ends at an offset. -/
def flowsOf (docs : Docs) (stop : Nat) : List (Entry Placed) → List Flow
  | [] => []
  | entry :: rest =>
    let span := entry.span rest stop
    let steps := match entry.value with
      | .sequence _ items => stepsOf docs span.stop items
      | _ => []
    let doc := docs.lookup entry.key
    ⟨entry.key, entry.keySpan, span, steps, doc,
      (doc.map FlowDoc.inputSymbols).getD []⟩ :: flowsOf docs stop rest

/-- Entries of a section of a mapping, with where the section ends. -/
def sectionOf? (key : String) (stop : Nat) (entries : List (Entry Placed)) :
    Option (List (Entry Placed) × Nat) :=
  match Entry.find? key stop entries with
  | some (⟨_, _, .mapping _ inner⟩, span) => some (inner, span.stop)
  | _ => none

/-- Arguments and flows of a placed document that ends at an offset. -/
def ofPlaced (lines : Lines) (stop : Nat) : Placed → Outline
  | .mapping _ sections =>
    let arguments := do
      let (configuration, inner) ← sectionOf? "configuration" stop sections
      let (found, _) ← Entry.find? "arguments" inner configuration
      return symbolsOf .argument found.value
    let flows := do
      let (entries, inner) ← sectionOf? "flows" stop sections
      return flowsOf (docsOf lines entries) inner entries
    ⟨arguments.getD [], flows.getD []⟩
  | _ => {}

/-- Arguments and flows of a document, from its structure and its text. -/
def ofNode (lines : Lines) (stop : Nat) (root : Yaml.Node) : Outline :=
  ofPlaced lines stop (Placed.ofNode lines root)

end Outline

end FlowExpr
