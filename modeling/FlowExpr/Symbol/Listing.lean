import FlowExpr.Json.Basic
import FlowExpr.Symbol.Basic
import FlowExpr.Text.Lines

/-!
# Symbols as text

* `Declared.summary`: one line for a reader;
* `Declared.json`, `Shape.json`: all that is known, as a structured value.
-/

namespace FlowExpr

/-- A range as a structured value. -/
def Span.json (s : Span) : Json :=
  .object [("start", .ofNat s.start), ("end", .ofNat s.stop)]

/-- A place of declaration as a structured value. -/
def Declaration.json : Declaration → Json
  | builtin => .text "builtin"
  | document span => .object [("document", span.json)]

namespace Declared

/-- Name and type, whether the runtime provides it, and the last line of its documentation. -/
def summary (s : Symbol) : String :=
  let last := (s.documentation.bind fun doc => (Lines.contents doc.toList).getLast?).getD []
  s.name ++ ": " ++ s.typeHint.name ++ (if s.isBuiltin then " (built-in)" else "") ++
    (if last.isEmpty then "" else " - " ++ String.ofList last)

/-- Fields of a symbol that are not its shape. -/
def jsonFields {σ : Type} (s : Declared σ) (shape : List (String × Json)) :
    List (String × Json) :=
  [("name", .text s.name), ("declared_at", s.declaredAt.json),
    ("type_hint", .text s.typeHint.name), ("origin", .text s.origin.name)] ++
    (s.documentation.map fun doc => ("documentation", Json.text doc)).toList ++ shape

end Declared

mutual

/-- A symbol as a structured value; documentation and shape only where it has them. -/
def Declared.json : Declared Shape → Json
  | ⟨name, declaredAt, typeHint, origin, documentation, shape⟩ =>
    .object (Declared.jsonFields
      (⟨name, declaredAt, typeHint, origin, documentation, none⟩ : Declared Shape)
      (Shape.jsonField shape))

/-- The field of a shape that may be missing. -/
def Shape.jsonField : Option Shape → List (String × Json)
  | none => []
  | some shape => [("shape", shape.json)]

/-- A shape as a structured value. -/
def Shape.json : Shape → Json
  | .object properties => .object [("object", .object (Shape.jsonProperties properties))]
  | .composite alternatives => .object [("composite", .list (Shape.jsonAll alternatives))]

/-- Properties as fields. -/
def Shape.jsonProperties : List (String × Declared Shape) → List (String × Json)
  | [] => []
  | (name, symbol) :: rest => (name, Declared.json symbol) :: Shape.jsonProperties rest

/-- Shapes as structured values. -/
def Shape.jsonAll : List Shape → List Json
  | [] => []
  | shape :: rest => shape.json :: Shape.jsonAll rest

end

/-- Symbols as a structured value. -/
def symbolsJson (symbols : List Symbol) : Json := .list (symbols.map Declared.json)

end FlowExpr
