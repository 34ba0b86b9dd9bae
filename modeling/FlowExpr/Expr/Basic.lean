import FlowExpr.Expr.Operator
import FlowExpr.Text.Quoted

/-!
# Expression trees

A tree keeps the byte range of every node, of every property name and of every parameter.
Input that cannot be understood is kept as an `error` node, and a property access that stops
after its dot has no name, so that a half-typed expression still has a tree.

* `Expr.children`: the direct parts, in source order;
* `Expr.leaves`: ranges of literals, names, property names, parameters and errors;
* `Expr.render`: the tree in brackets, operator first;
* `Expr.nodes`: the nodes in preorder, with their depth.
-/

namespace FlowExpr

/-- Literal values. -/
inductive Literal where
  | integer (value : Int)
  | decimal (value : Decimal)
  | string (text : String)
  | boolean (value : Bool)
  | null
  deriving DecidableEq, Repr

/-- Parameter of a lambda and the range that declares it. -/
structure Param where
  name : String
  span : Span
  deriving DecidableEq, Repr

/-- Expression trees. The last range of a node is the node's own. -/
inductive Expr where
  | literal (value : Literal) (span : Span)
  | identifier (name : String) (span : Span)
  | property (target : Expr) (name : Option String) (nameSpan : Span) (span : Span)
  | index (target : Expr) (index : Expr) (span : Span)
  | call (target : Expr) (args : List Expr) (span : Span)
  | binary (op : BinaryOp) (left right : Expr) (span : Span)
  | unary (op : UnaryOp) (operand : Expr) (span : Span)
  | ternary (condition yes no : Expr) (span : Span)
  | list (items : List Expr) (span : Span)
  | set (items : List Expr) (span : Span)
  | map (entries : List (Expr × Expr)) (span : Span)
  | lambda (params : List Param) (body : Expr) (span : Span)
  | error (span : Span)
  deriving Repr

namespace Expr

instance : Inhabited Expr := ⟨.error ⟨0, 0⟩⟩

/-- Range of the node. -/
def span : Expr → Span
  | literal _ s | identifier _ s | property _ _ _ s | index _ _ s | call _ _ s
  | binary _ _ _ s | unary _ _ s | ternary _ _ _ s | list _ s | set _ s | map _ s
  | lambda _ _ s | error s => s

/-- The node is a placeholder. -/
def isError : Expr → Bool
  | error _ => true
  | _ => false

/-- Direct parts, in source order. -/
def children : Expr → List Expr
  | literal .. | identifier .. | error _ => []
  | property target _ _ _ => [target]
  | index target i _ => [target, i]
  | call target args _ => target :: args
  | binary _ left right _ => [left, right]
  | unary _ operand _ => [operand]
  | ternary condition yes no _ => [condition, yes, no]
  | list items _ | set items _ => items
  | map entries _ => entries.flatMap fun entry => [entry.1, entry.2]
  | lambda _ body _ => [body]

/-! ## 1. Leaves -/

mutual

/-- Ranges of the leaves, in source order: literals, names, errors, property names and
    parameters. -/
def leaves : Expr → List Span
  | literal _ s | identifier _ s | error s => [s]
  | property target _ nameSpan _ => target.leaves ++ [nameSpan]
  | index target i _ => target.leaves ++ i.leaves
  | call target args _ => target.leaves ++ leavesOfList args
  | binary _ left right _ => left.leaves ++ right.leaves
  | unary _ operand _ => operand.leaves
  | ternary condition yes no _ => condition.leaves ++ yes.leaves ++ no.leaves
  | list items _ | set items _ => leavesOfList items
  | map entries _ => leavesOfEntries entries
  | lambda params body _ => params.map Param.span ++ body.leaves

/-- Leaves of several trees. -/
def leavesOfList : List Expr → List Span
  | [] => []
  | e :: es => e.leaves ++ leavesOfList es

/-- Leaves of the entries of a map, key before value. -/
def leavesOfEntries : List (Expr × Expr) → List Span
  | [] => []
  | (key, value) :: rest => key.leaves ++ value.leaves ++ leavesOfEntries rest

end

/-! ## 2. Printing -/

/-- A literal as a tree shows it. -/
def renderLiteral : Literal → String
  | .integer n => toString n
  | .decimal d => d.toString
  | .string text => Text.quoted text
  | .boolean b => if b then "true" else "false"
  | .null => "null"

mutual

/-- The tree in brackets, operator first: `1 + 2 * 3` is `(+ 1 (* 2 3))`. -/
def render : Expr → String
  | literal value _ => renderLiteral value
  | identifier name _ => name
  | property target name _ _ => "(. " ++ target.render ++ " " ++ name.getD "<missing>" ++ ")"
  | index target i _ => "([] " ++ target.render ++ " " ++ i.render ++ ")"
  | call target args _ => "(call " ++ target.render ++ renderList args ++ ")"
  | binary op left right _ =>
    "(" ++ op.symbol ++ " " ++ left.render ++ " " ++ right.render ++ ")"
  | unary op operand _ => "(" ++ op.symbol ++ " " ++ operand.render ++ ")"
  | ternary condition yes no _ =>
    "(? " ++ condition.render ++ " " ++ yes.render ++ " " ++ no.render ++ ")"
  | list items _ => "(list" ++ renderList items ++ ")"
  | set items _ => "(set" ++ renderList items ++ ")"
  | map entries _ => "(map" ++ renderEntries entries ++ ")"
  | lambda params body _ =>
    "(-> (" ++ " ".intercalate (params.map Param.name) ++ ") " ++ body.render ++ ")"
  | error _ => "<error>"

/-- Trees in a row, a space before each. -/
def renderList : List Expr → String
  | [] => ""
  | e :: es => " " ++ e.render ++ renderList es

/-- Entries of a map in a row, each a pair in brackets. -/
def renderEntries : List (Expr × Expr) → String
  | [] => ""
  | (key, value) :: rest =>
    " (" ++ key.render ++ " " ++ value.render ++ ")" ++ renderEntries rest

end

/-! ## 3. Preorder -/

mutual

/-- The node and all below it in preorder, each with its depth. -/
def nodes (depth : Nat) (e : Expr) : List (Nat × Expr) :=
  (depth, e) ::
    match e with
    | literal .. | identifier .. | error _ => []
    | property target _ _ _ => target.nodes (depth + 1)
    | index target i _ => target.nodes (depth + 1) ++ i.nodes (depth + 1)
    | call target args _ => target.nodes (depth + 1) ++ nodesOfList (depth + 1) args
    | binary _ left right _ => left.nodes (depth + 1) ++ right.nodes (depth + 1)
    | unary _ operand _ => operand.nodes (depth + 1)
    | ternary condition yes no _ =>
      condition.nodes (depth + 1) ++ yes.nodes (depth + 1) ++ no.nodes (depth + 1)
    | list items _ | set items _ => nodesOfList (depth + 1) items
    | map entries _ => nodesOfEntries (depth + 1) entries
    | lambda _ body _ => body.nodes (depth + 1)

/-- Nodes of several trees. -/
def nodesOfList (depth : Nat) : List Expr → List (Nat × Expr)
  | [] => []
  | e :: es => e.nodes depth ++ nodesOfList depth es

/-- Nodes of the entries of a map, key before value. -/
def nodesOfEntries (depth : Nat) : List (Expr × Expr) → List (Nat × Expr)
  | [] => []
  | (key, value) :: rest =>
    key.nodes depth ++ value.nodes depth ++ nodesOfEntries depth rest

end

end Expr

end FlowExpr
