import FlowExpr.Span
import FlowExpr.TypeHint

/-!
# Symbols and shapes

A symbol is a name that expressions can use: where it is declared, what is known of its type,
and, for an object, which properties it has. The properties of an object are its shape. A
variable that gets a value in several branches has the shapes of all of them, as alternatives.

* `Shape.lookup`: the declarations of a property across the alternatives;
* `Shape.properties`: the properties to offer, one for each name;
* `Shape.merge`: alternatives side by side;
* `Shape.insertPath`: a property some levels down.
-/

namespace FlowExpr

/-- Where a symbol is declared: at a range of the document, or by the runtime. -/
inductive Declaration where
  | builtin
  | document (span : Span)
  deriving DecidableEq, Repr

/-- Range of a declaration in the document. -/
def Declaration.span? : Declaration → Option Span
  | builtin => none
  | document span => some span

/-- What declared a symbol. -/
inductive Origin where
  | builtin | builtinFunction | argument | flowParameter | setStep | stepOut | loop
  | taskResult | lambdaParameter
  deriving DecidableEq, Repr

/-- The origin as listings show it. -/
def Origin.name : Origin → String
  | builtin => "builtin" | builtinFunction => "builtin_function" | argument => "argument"
  | flowParameter => "flow_parameter" | setStep => "set_step" | stepOut => "step_out"
  | loop => "loop" | taskResult => "task_result" | lambdaParameter => "lambda_parameter"

/-- A named declaration, over a type of shapes. -/
structure Declared (σ : Type) where
  name : String
  declaredAt : Declaration
  typeHint : TypeHint
  origin : Origin
  documentation : Option String := none
  shape : Option σ := none
  deriving Repr

/-- Properties of an object, in the order of their names, or alternatives. -/
inductive Shape where
  | object (properties : List (String × Declared Shape))
  | composite (alternatives : List Shape)
  deriving Repr

/-- A named declaration visible to expressions. -/
abbrev Symbol := Declared Shape

instance : Inhabited Shape := ⟨.object []⟩

instance : Inhabited Symbol := ⟨⟨"", .builtin, .unknown, .builtin, none, none⟩⟩

namespace Declared

/-- The symbol is declared by the runtime. -/
def isBuiltin {σ : Type} (s : Declared σ) : Bool := s.declaredAt == .builtin

/-- The symbol with a documentation, unless that is empty. -/
def withDocumentation {σ : Type} (s : Declared σ) (text : String) : Declared σ :=
  if text.isEmpty then s else { s with documentation := some text }

/-- Two symbols stand for the same declaration. -/
def same {σ : Type} (s t : Declared σ) : Bool :=
  s.name == t.name && s.declaredAt == t.declaredAt && s.origin == t.origin

theorem same_iff {σ : Type} {s t : Declared σ} :
    s.same t = true ↔ s.name = t.name ∧ s.declaredAt = t.declaredAt ∧ s.origin = t.origin := by
  simp [same, and_assoc]

theorem same_refl {σ : Type} (s : Declared σ) : s.same s = true := same_iff.mpr ⟨rfl, rfl, rfl⟩

theorem same_trans {σ : Type} {s t u : Declared σ} (h : s.same t = true) (h' : t.same u = true) :
    s.same u = true := by
  obtain ⟨h₁, h₂, h₃⟩ := same_iff.mp h
  obtain ⟨h₁', h₂', h₃'⟩ := same_iff.mp h'
  exact same_iff.mpr ⟨h₁.trans h₁', h₂.trans h₂', h₃.trans h₃'⟩

end Declared

/-! ## 1. Properties by name -/

namespace Properties

/-- The entry of a name. -/
def get? (properties : List (String × Symbol)) (name : String) : Option Symbol :=
  properties.lookup name

/-- A new entry, or a new value for an old one; the names stay in order. -/
def insert (name : String) (symbol : Symbol) : List (String × Symbol) → List (String × Symbol)
  | [] => [(name, symbol)]
  | (key, value) :: rest =>
    if name < key then (name, symbol) :: (key, value) :: rest
    else if name = key then (name, symbol) :: rest
    else (key, value) :: insert name symbol rest

end Properties

namespace Shape

/-- An object with the given properties; the last of a name wins. -/
def ofSymbols (symbols : List Symbol) : Shape :=
  .object (symbols.foldl (fun props s => Properties.insert s.name s props) [])

/-- The first of each, by a key. -/
def firsts {κ : Type} [BEq κ] (key : Symbol → κ) (symbols : List Symbol) : List Symbol :=
  symbols.foldl
    (fun found s => if found.any fun f => key f == key s then found else found ++ [s]) []

mutual

/-- Declarations of a property across the alternatives, one for each place of declaration. -/
def lookup (name : String) : Shape → List Symbol
  | .object properties => (Properties.get? properties name).toList
  | .composite alternatives => firsts Declared.declaredAt (lookupAll name alternatives)

/-- Declarations of a property in each of several shapes. -/
def lookupAll (name : String) : List Shape → List Symbol
  | [] => []
  | shape :: rest => shape.lookup name ++ lookupAll name rest

end

mutual

/-- All properties, one for each name; an earlier alternative wins. -/
def properties : Shape → List Symbol
  | .object entries => entries.map Prod.snd
  | .composite alternatives => firsts Declared.name (propertiesAll alternatives)

/-- All properties of each of several shapes. -/
def propertiesAll : List Shape → List Symbol
  | [] => []
  | shape :: rest => shape.properties ++ propertiesAll rest

end

/-- The alternatives of a shape. -/
def alternatives : Shape → List Shape
  | .composite shapes => shapes
  | shape => [shape]

/-- Two shapes as alternatives, those of either side taken apart. -/
def merge (a b : Shape) : Shape := .composite (a.alternatives ++ b.alternatives)

/-- The alternatives of several shapes, if there is a shape at all. -/
def mergeAll : List Shape → Option Shape
  | [] => none
  | shape :: rest => some (rest.foldl merge shape)

/-- A symbol under a path of names; objects on the way are made where they are missing.
    Alternatives are left as they are. -/
def insertPath (symbol : Symbol) : List String → Shape → Shape
  | _, .composite shapes => .composite shapes
  | [], shape => shape
  | [last], .object entries => .object (Properties.insert last symbol entries)
  | head :: rest, .object entries =>
    let old := (Properties.get? entries head).getD
      ⟨head, symbol.declaredAt, .object, symbol.origin, none, none⟩
    let inner := insertPath symbol rest (old.shape.getD (.object []))
    .object (Properties.insert head { old with typeHint := .object, shape := some inner } entries)

end Shape

/-! ## 2. Symbol lists -/

namespace Declared

/-- The first symbol of a name. -/
def find? (symbols : List Symbol) (name : String) : Option Symbol :=
  symbols.find? fun s => s.name == name

end Declared

end FlowExpr
