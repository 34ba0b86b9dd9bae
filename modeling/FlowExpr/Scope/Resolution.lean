import FlowExpr.Scope.Basic

/-!
# What a node means

A name means its declaration in the scope. A property means the declarations that the known
shape of its target has for it, which can be several when the target has alternatives. A call
means what is called. Everything else, and whatever hangs on a target without a known shape,
means nothing that is known here; that is no error.

* `resolve`: the declaration of a node;
* `shapeOf?`: what is known of the properties of its value;
* `candidates`: what could stand in its place.
-/

namespace FlowExpr

/-- What a node resolves to. -/
inductive Resolution where
  | resolved (symbol : Symbol)
  /-- Several declarations that disagree on the type. -/
  | ambiguous (symbols : List Symbol)
  | unresolved
  deriving Repr

namespace Resolution

/-- The declaration, or the first of several. -/
def symbol? : Resolution → Option Symbol
  | resolved symbol => some symbol
  | ambiguous symbols => symbols.head?
  | unresolved => none

/-- Nothing is known. -/
def isUnresolved : Resolution → Bool
  | unresolved => true
  | _ => false

/-- The alternatives of all shapes that the symbols have. -/
def mergedShape? (symbols : List Symbol) : Option Shape :=
  Shape.mergeAll (symbols.filterMap Declared.shape)

/-- Declarations of one property as a result. Those of one type count as one declaration, with
    the shapes of all. -/
def ofCandidates : List Symbol → Resolution
  | [] => unresolved
  | [only] => resolved only
  | first :: rest =>
    if rest.all fun s => s.typeHint == first.typeHint then
      resolved { first with shape := mergedShape? (first :: rest) }
    else ambiguous (first :: rest)

/-- A declaration that may be missing. -/
def ofOption : Option Symbol → Resolution
  | some symbol => resolved symbol
  | none => unresolved

/-- What is known of the properties of the result. -/
def shape? : Resolution → Option Shape
  | resolved symbol => symbol.shape
  | ambiguous symbols => mergedShape? symbols
  | unresolved => none

end Resolution

namespace Expr

/-- The node is a name or a property access: its value can have a known shape. -/
def isPath : Expr → Bool
  | identifier .. | property .. => true
  | _ => false

end Expr

/-- The declaration that a node means in a scope. -/
def resolve (scope : Scope) : Expr → Resolution
  | .identifier name _ => .ofOption (scope.lookup name)
  | .call (.identifier name _) _ _ =>
    .ofOption ((scope.lookup name).or (scope.function? name))
  | .call target _ _ => resolve scope target
  | .property target (some name) _ _ =>
    if target.isPath then
      match (resolve scope target).shape? with
      | some shape => .ofCandidates (shape.lookup name)
      | none => .unresolved
    else .unresolved
  | _ => .unresolved

/-- Known shape of a node's value. Calls and elements have none. -/
def shapeOf? (scope : Scope) (e : Expr) : Option Shape :=
  if e.isPath then (resolve scope e).shape? else none

/-- Every visible symbol, and the functions that no symbol hides. -/
def scopeCandidates (scope : Scope) : List Symbol :=
  let symbols := scope.symbols
  symbols ++ scope.functions.filter fun f => !symbols.any fun s => s.name == f.name

/-- What could stand in place of a node: after a dot the properties of the target, at a name
    everything that is visible. -/
def candidates (scope : Scope) : Expr → List Symbol
  | .property target _ _ _ =>
    match shapeOf? scope target with
    | some shape => shape.properties
    | none => []
  | .identifier .. | .error _ => scopeCandidates scope
  | .call (.identifier ..) _ _ => scopeCandidates scope
  | _ => []

end FlowExpr
