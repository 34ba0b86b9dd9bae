import FlowExpr.Expr.Basic
import FlowExpr.Symbol.Builtin

/-!
# Scopes

A scope is a stack of layers, the innermost first. A name means its first declaration on the
way outward, so inner declarations hide outer ones.

* `Layer.lookup`, `Layer.list`: the declarations of a layer, by name and in a row;
* `Scope.lookup`: the declaration that a name means;
* `Scope.symbols`: every visible symbol once;
* `Scope.function?`, `Scope.functions`: functions of the runtime, where they are switched on.
-/

namespace FlowExpr

/-- One level of declarations. -/
inductive Layer where
  /-- Parameters of the lambdas around a node, the outermost first. -/
  | lambdaParameters (symbols : List Symbol)
  /-- The result of the task whose outcome is being stored. -/
  | taskResult
  /-- The variables of a looping step. -/
  | loop
  /-- Variables declared by steps that run earlier. -/
  | declaredVariables (symbols : List Symbol)
  /-- Documented inputs of the surrounding flow. -/
  | flowParameters (symbols : List Symbol)
  /-- Arguments of the process. -/
  | arguments (symbols : List Symbol)
  /-- Variables that the runtime provides. -/
  | builtinContext
  deriving Repr

namespace Layer

/-- Declarations of the layer in the order in which a look-up meets them. A later parameter
    hides an earlier one of its name, since inner lambdas come last. -/
def list : Layer → List Symbol
  | lambdaParameters symbols => symbols.reverse
  | taskResult => [Builtin.taskResult]
  | loop => Builtin.loopVariables
  | declaredVariables symbols | flowParameters symbols | arguments symbols => symbols
  | builtinContext => Builtin.contextVariables

/-- The layer's declaration of a name. -/
def lookup (layer : Layer) (name : String) : Option Symbol :=
  match layer with
  | lambdaParameters symbols => symbols.findRev? fun s => s.name == name
  | taskResult => (some Builtin.taskResult).filter fun s => s.name == name
  | loop => Declared.find? Builtin.loopVariables name
  | declaredVariables symbols | flowParameters symbols | arguments symbols =>
    Declared.find? symbols name
  | builtinContext => Builtin.findVariable? name

/-- A layer declares under a name what it lists first under that name. -/
theorem lookup_eq_find? (layer : Layer) (name : String) :
    layer.lookup name = Declared.find? layer.list name := by
  cases layer with
  | lambdaParameters symbols => exact List.findRev?_eq_find?_reverse
  | taskResult =>
    rw [lookup, list, Declared.find?, Option.filter_some, List.find?_singleton]
  | loop | declaredVariables | flowParameters | arguments | builtinContext => rfl

/-- The kind of layer as listings show it. -/
def kind : Layer → String
  | lambdaParameters _ => "lambda_parameter"
  | taskResult => "task_result"
  | loop => "loop"
  | declaredVariables _ => "declared_variable"
  | flowParameters _ => "flow_parameter"
  | arguments _ => "argument"
  | builtinContext => "builtin_context"

end Layer

/-- Layers, innermost first, and whether the functions of the runtime are visible. -/
structure Scope where
  layers : List Layer
  hasFunctions : Bool := true
  deriving Repr

namespace Scope

/-- What is visible outside of any document. -/
def builtinsOnly : Scope := ⟨[.builtinContext], true⟩

/-- The scope without functions. -/
def withoutFunctions (scope : Scope) : Scope := { scope with hasFunctions := false }

/-- The scope with one more layer inside. -/
def push (scope : Scope) (layer : Layer) : Scope := { scope with layers := layer :: scope.layers }

/-- The innermost declaration of a name. -/
def lookup (scope : Scope) (name : String) : Option Symbol :=
  scope.layers.findSome? fun layer => layer.lookup name

/-- Every visible symbol once, the innermost declaration of each name. -/
def symbols (scope : Scope) : List Symbol :=
  Shape.firsts Declared.name (scope.layers.flatMap Layer.list)

/-- Shape of the declaration that a name means. -/
def shapeOf? (scope : Scope) (name : String) : Option Shape :=
  (scope.lookup name).bind Declared.shape

/-- Visible functions. -/
def functions (scope : Scope) : List Symbol :=
  if scope.hasFunctions then Builtin.functions else []

/-- A visible function by its name. -/
def function? (scope : Scope) (name : String) : Option Symbol :=
  if scope.hasFunctions then Builtin.findFunction? name else none

theorem function?_eq_find? (scope : Scope) (name : String) :
    scope.function? name = Declared.find? scope.functions name := by
  unfold function? functions
  split <;> rfl

/-- The symbol of a lambda parameter. -/
def lambdaParameter (p : Param) : Symbol :=
  ⟨p.name, .document p.span, .unknown, .lambdaParameter, none, none⟩

/-- The scope inside the lambdas that bind the given parameters, outermost first. -/
def withParams (scope : Scope) (params : List Param) : Scope :=
  if params.isEmpty then scope else scope.push (.lambdaParameters (params.map lambdaParameter))

end Scope

end FlowExpr
