import FlowExpr.Yaml.Scanner

/-!
# The structure of a document

A document is a tree of scalars, sequences and mappings, each with the place where it begins.
`Tree` is what its tokens say, with tags and anchors; `Node` is what is left when those, and
keys that are not scalars, are refused.

* `Tree.ofTokens?`: the first document of a list of tokens;
* `Node.ofTree`: the structure, or the first reason to refuse it;
* `load`: both, for a text.
-/

namespace FlowExpr.Yaml

/-- The properties that a node was given. -/
structure Properties where
  anchored : Bool := false
  tagged : Bool := false
  deriving DecidableEq, Repr

/-- A document as its tokens say it. -/
inductive Tree where
  | scalar (mark : Mark) (properties : Properties) (text : String)
  | sequence (mark : Mark) (properties : Properties) (items : List Tree)
  | mapping (mark : Mark) (properties : Properties) (entries : List (Tree × Tree))
  deriving Repr

/-- The scalar that stands for a missing node. -/
def Tree.missing (mark : Mark) : Tree := .scalar mark {} "~"

/-! ## 1. Reading tokens -/

/-- Tokens not yet taken, the anchors that were defined, and the handle that a directive
    declared. -/
structure TreeState where
  ahead : List Token
  anchors : List String := []
  declared : Option String := none

/-- A reading of tokens that can fail. -/
abbrev TreeReader (α : Type) := StateT TreeState Option α

namespace Tree

/-- The next token; there has to be one. -/
def peek : TreeReader Token := fun s =>
  match s.ahead with
  | [] => none
  | t :: _ => some (t, s)

/-- Take the next token. -/
def skip : TreeReader Unit := modify fun s => { s with ahead := s.ahead.tail }

/-- The document is refused. -/
def refuse {α : Type} : TreeReader α := fun _ => none

/-- A tag with a closed handle needs a directive for it. -/
def checkHandle (handle : String) : TreeReader Unit := do
  if isClosedHandle handle.toList && handle ≠ "!!" && (← get).declared ≠ some handle then
    refuse
  else pure ()

/-- Remember an anchor. -/
def defineAnchor (name : String) : TreeReader Unit :=
  modify fun s => { s with anchors := name :: s.anchors }

/-- Tag and anchor before a node, in either order. -/
def readProperties : TreeReader Properties := do
  match (← peek).kind with
  | .anchor name =>
    skip
    defineAnchor name
    match (← peek).kind with
    | .tag handle =>
      skip
      checkHandle handle
      return ⟨true, true⟩
    | _ => return ⟨true, false⟩
  | .tag handle =>
    skip
    checkHandle handle
    match (← peek).kind with
    | .anchor name =>
      skip
      defineAnchor name
      return ⟨true, true⟩
    | _ => return ⟨false, true⟩
  | _ => return {}

/-- Items one after another until a reading gives none. -/
def readMany {α : Type} (item : TreeReader (Option α)) : Nat → TreeReader (List α)
  | 0 => refuse
  | n + 1 => do
    match ← item with
    | none => return []
    | some first => return first :: (← readMany item n)

/-- Items one after another; there are no more of them than tokens. -/
def readAll {α : Type} (item : TreeReader (Option α)) : TreeReader (List α) := do
  readMany item ((← get).ahead.length + 1)

/-- A node, unless one of the given kinds comes, which leaves it missing at that token. -/
def nodeUnless (node : TreeReader Tree) (stops : List TokenKind) : TreeReader Tree := do
  let token ← peek
  if stops.contains token.kind then return missing token.mark else node

/-- An item of a block sequence. -/
def blockItem (node : TreeReader Tree) : TreeReader (Option Tree) := do
  match (← peek).kind with
  | .blockEnd =>
    skip
    return none
  | .blockEntry =>
    skip
    return some (← nodeUnless node [.blockEntry, .blockEnd])
  | _ => refuse

/-- An item of a sequence that is not indented more than the mapping around it. -/
def indentlessItem (node : TreeReader Tree) : TreeReader (Option Tree) := do
  match (← peek).kind with
  | .blockEntry =>
    skip
    return some (← nodeUnless node [.blockEntry, .key, .value, .blockEnd])
  | _ => return none

/-- The value of a block mapping's entry. -/
def blockValue (node : TreeReader Tree) : TreeReader Tree := do
  let token ← peek
  match token.kind with
  | .value =>
    skip
    nodeUnless node [.key, .value, .blockEnd]
  | _ => return missing token.mark

/-- An entry of a block mapping. -/
def blockPair (node : TreeReader Tree) : TreeReader (Option (Tree × Tree)) := do
  let token ← peek
  match token.kind with
  | .blockEnd =>
    skip
    return none
  | .key =>
    skip
    let key ← nodeUnless node [.key, .value, .blockEnd]
    return some (key, ← blockValue node)
  | .value => return some (missing token.mark, ← blockValue node)
  | _ => refuse

/-- The value of a flow mapping's entry; one that is missing after its colon stands at the
    colon. -/
def flowValue (node : TreeReader Tree) : TreeReader Tree := do
  let token ← peek
  match token.kind with
  | .value =>
    skip
    let next ← peek
    if next.kind = .flowEntry ∨ next.kind = .flowMappingEnd then return missing token.mark
    else node
  | _ => return missing token.mark

/-- An entry of a flow mapping, after the comma before it. -/
def flowPairHere (node : TreeReader Tree) : TreeReader (Option (Tree × Tree)) := do
  let token ← peek
  match token.kind with
  | .flowMappingEnd =>
    skip
    return none
  | .key =>
    skip
    let key ← nodeUnless node [.value, .flowEntry, .flowMappingEnd]
    return some (key, ← flowValue node)
  | .value => return some (missing token.mark, ← flowValue node)
  | _ =>
    let key ← node
    return some (key, missing (← peek).mark)

/-- A later entry of a flow mapping. -/
def flowPair (node : TreeReader Tree) : TreeReader (Option (Tree × Tree)) := do
  match (← peek).kind with
  | .flowMappingEnd =>
    skip
    return none
  | .flowEntry =>
    skip
    flowPairHere node
  | _ => refuse

/-- Key of a mapping with one entry and no braces. -/
def bareKey (node : TreeReader Tree) : TreeReader Tree := do
  let token ← peek
  match token.kind with
  | .value | .flowEntry | .flowSequenceEnd =>
    skip
    return missing token.mark
  | _ => node

/-- Value of a mapping with one entry and no braces. -/
def bareValue (node : TreeReader Tree) : TreeReader Tree := do
  let token ← peek
  match token.kind with
  | .value =>
    skip
    nodeUnless node [.flowEntry, .flowSequenceEnd]
  | _ => return missing token.mark

/-- An item of a flow sequence, after the comma before it. -/
def flowItemHere (node : TreeReader Tree) : TreeReader (Option Tree) := do
  let token ← peek
  match token.kind with
  | .flowSequenceEnd =>
    skip
    return none
  | .key =>
    skip
    let key ← bareKey node
    return some (.mapping token.mark {} [(key, ← bareValue node)])
  | _ => return some (← node)

/-- A later item of a flow sequence. -/
def flowItem (node : TreeReader Tree) : TreeReader (Option Tree) := do
  match (← peek).kind with
  | .flowSequenceEnd =>
    skip
    return none
  | .flowEntry =>
    skip
    flowItemHere node
  | _ => refuse

/-- A first reading and, unless it gives none, later ones. -/
def firstThen {α : Type} (first later : TreeReader (Option α)) : TreeReader (List α) := do
  match ← first with
  | none => return []
  | some a => return a :: (← readAll later)

/-- Where a node stands: in block structure, as key or value of a block mapping, or in a flow
    collection. -/
inductive Position where
  | block | entry | flow
  deriving DecidableEq, Repr

/-- A node whose nesting is at most the given number. Every level takes a token. -/
def node : Nat → Position → TreeReader Tree
  | 0, _ => refuse
  | n + 1, position => do
    match (← peek).kind with
    | .alias name =>
      skip
      if (← get).anchors.contains name then return missing {} else refuse
    | _ =>
      let properties ← readProperties
      let token ← peek
      match token.kind with
      | .blockEntry =>
        if position = .entry then
          return .sequence token.mark properties (← readAll (indentlessItem (node n .block)))
        else if properties.anchored || properties.tagged then
          return .scalar token.mark properties "~"
        else refuse
      | .scalar text =>
        skip
        return .scalar token.mark properties text
      | .flowSequenceStart =>
        skip
        return .sequence token.mark properties
          (← firstThen (flowItemHere (node n .flow)) (flowItem (node n .flow)))
      | .flowMappingStart =>
        skip
        return .mapping token.mark properties
          (← firstThen (flowPairHere (node n .flow)) (flowPair (node n .flow)))
      | .blockSequenceStart =>
        if position = .flow then
          if properties.anchored || properties.tagged then
            return .scalar token.mark properties "~"
          else refuse
        else
          skip
          return .sequence token.mark properties (← readAll (blockItem (node n .block)))
      | .blockMappingStart =>
        if position = .flow then
          if properties.anchored || properties.tagged then
            return .scalar token.mark properties "~"
          else refuse
        else
          skip
          return .mapping token.mark properties (← readAll (blockPair (node n .entry)))
      | _ =>
        if properties.anchored || properties.tagged then
          return .scalar token.mark properties "~"
        else refuse

/-! ## 2. The first document -/

/-- Directives before a document, at most one of them with a version. Each replaces the one
    before it, so that only a handle of the last is declared. -/
def directives : Nat → Bool → TreeReader Unit
  | 0, _ => refuse
  | n + 1, versioned => do
    match (← peek).kind with
    | .versionDirective =>
      if versioned then refuse
      else
        skip
        modify fun s => { s with declared := none }
        directives n true
    | .tagDirective handle =>
      skip
      modify fun s => { s with declared := some handle }
      directives n versioned
    | _ => pure ()

/-- Pass over lines that end documents. -/
def skipEnds : Nat → TreeReader Unit
  | 0 => pure ()
  | n + 1 => do
    if (← peek).kind = .documentEnd then
      skip
      skipEnds n
    else pure ()

/-- Check what follows a document: no directive without a line that ends the document. -/
def afterDocument : TreeReader Unit := do
  match (← peek).kind with
  | .versionDirective | .tagDirective _ => refuse
  | _ => pure ()

/-- Content of a document after the line that starts it. -/
def content (size : Nat) : TreeReader Tree := do
  let token ← peek
  match token.kind with
  | .versionDirective | .tagDirective _ | .documentStart | .documentEnd | .streamEnd =>
    return missing token.mark
  | _ => node size .block

/-- The first document, if there is one. -/
def firstDocument (size : Nat) : TreeReader (Option Tree) := do
  skipEnds size
  match (← peek).kind with
  | .streamEnd => return none
  | .versionDirective | .tagDirective _ | .documentStart =>
    directives size false
    if (← peek).kind = .documentStart then
      skip
      let tree ← content size
      afterDocument
      return some tree
    else refuse
  | _ =>
    let tree ← node size .block
    afterDocument
    return some tree

/-- The first document of a list of tokens; the outer `none` refuses it. -/
def ofTokens? (tokens : List Token) : Option (Option Tree) :=
  ((firstDocument (tokens.length + 1)).run { ahead := tokens }).map Prod.fst

end Tree

/-! ## 3. Nodes -/

/-- Structure of a document. A node that was not read from a text has no place. -/
inductive Node where
  | scalar (mark : Option Mark) (text : String)
  | sequence (mark : Option Mark) (items : List Node)
  | mapping (mark : Option Mark) (entries : List ((Option Mark × String) × Node))
  deriving Repr, Inhabited

/-- Reasons to refuse a document. -/
inductive LoadError where
  | syntaxError
  | topLevelNotMapping
  | keyNotScalar
  | unexpectedAnchor
  | unexpectedTag
  deriving DecidableEq, Repr

/-- Wording of a reason. -/
def LoadError.message : LoadError → String
  | syntaxError => "syntax error"
  | topLevelNotMapping => "Top level must be a mapping"
  | keyNotScalar => "Keys in mappings must be scalar"
  | unexpectedAnchor => "Unexpected definition of anchor"
  | unexpectedTag => "Unexpected use of YAML tag"

namespace Node

/-- Refuse the properties of a scalar; an anchor counts before a tag. -/
def checkScalar (p : Properties) : Except LoadError Unit :=
  if p.anchored then .error .unexpectedAnchor
  else if p.tagged then .error .unexpectedTag
  else .ok ()

/-- Refuse the properties of a collection; a tag counts before an anchor. -/
def checkCollection (p : Properties) : Except LoadError Unit :=
  if p.tagged then .error .unexpectedTag
  else if p.anchored then .error .unexpectedAnchor
  else .ok ()

/-- The key of an entry, which has to be a scalar. -/
def keyOf : Tree → Except LoadError (Option Mark × String)
  | .scalar mark properties text => do
    checkScalar properties
    return (some mark, text)
  | .sequence _ properties _ | .mapping _ properties _ => do
    checkCollection properties
    throw .keyNotScalar

mutual

/-- The structure below the top of a document. -/
def ofTree : Tree → Except LoadError Node
  | .scalar mark properties text => do
    checkScalar properties
    return .scalar (some mark) text
  | .sequence mark properties items => do
    checkCollection properties
    return .sequence (some mark) (← ofItems items)
  | .mapping mark properties entries => do
    checkCollection properties
    return .mapping (some mark) (← ofEntries entries)

/-- Items of a sequence. -/
def ofItems : List Tree → Except LoadError (List Node)
  | [] => return []
  | t :: rest => do
    let first ← ofTree t
    return first :: (← ofItems rest)

/-- Entries of a mapping. -/
def ofEntries : List (Tree × Tree) → Except LoadError (List ((Option Mark × String) × Node))
  | [] => return []
  | (key, value) :: rest => do
    let k ← keyOf key
    let v ← ofTree value
    return (k, v) :: (← ofEntries rest)

end

/-- The structure of a whole document, which has to be a mapping. -/
def ofDocument : Tree → Except LoadError Node
  | .scalar _ properties _ => do
    checkScalar properties
    throw .topLevelNotMapping
  | .sequence _ properties _ => do
    checkCollection properties
    throw .topLevelNotMapping
  | .mapping mark properties entries => ofTree (.mapping mark properties entries)

end Node

/-- The structure of the first document of a text; a text without one is an empty mapping. -/
def load (text : List Char) : Except LoadError Node :=
  match Tree.ofTokens? (scan text) with
  | none => .error .syntaxError
  | some none => .ok (.mapping none [])
  | some (some tree) => Node.ofDocument tree

end FlowExpr.Yaml
