import FlowExpr.Symbol.Basic

/-!
# Declaring dotted paths

A declaration can name a property some levels down: `a.b.c` makes `a` an object that has `b`,
which has `c`. A plain name replaces an earlier declaration of the name in its place, but keeps
the properties that dotted entries gave it.
-/

namespace FlowExpr

/-- A text cut at its dots. -/
def splitDots : List Char → List (List Char)
  | [] => [[]]
  | c :: cs =>
    if c = '.' then [] :: splitDots cs
    else
      match splitDots cs with
      | [] => [[c]]
      | first :: rest => (c :: first) :: rest

/-- Segments of a dotted path. A path with an empty segment is one plain name. -/
def pathSegments (path : String) : List String :=
  let segments := splitDots path.toList
  if segments.any List.isEmpty then [path] else segments.map String.ofList

namespace Declared

/-- Change the first symbol of a name, or add one at the end. -/
def upsert (name : String) (change : Symbol → Symbol) (fresh : Symbol) :
    List Symbol → List Symbol
  | [] => [change fresh]
  | s :: rest =>
    if s.name = name then change s :: rest else s :: upsert name change fresh rest

/-- Where the first segment of a dotted declaration stands. -/
def rootDeclaration (root : String) : Declaration → Declaration
  | .builtin => .builtin
  | .document span => .document ⟨span.start, span.start + min root.utf8ByteSize span.length⟩

/-- A symbol in place of an older one; without a shape of its own it takes over the old. -/
def replacing (symbol old : Symbol) : Symbol :=
  { symbol with shape := symbol.shape.or old.shape }

/-- A symbol some levels below its owner. -/
def owning (path : List String) (symbol owner : Symbol) : Symbol :=
  { owner with
    typeHint := .object
    shape := some ((owner.shape.getD (.object [])).insertPath symbol path) }

/-- Declare a symbol under a dotted path. -/
def declarePath (symbols : List Symbol) (path : String) (symbol : Symbol) : List Symbol :=
  match pathSegments path with
  | [] => symbols
  | [_] =>
    let named := { symbol with name := path }
    upsert path (replacing named) named symbols
  | root :: rest =>
    let leaf := { symbol with name := (rest.getLast?).getD symbol.name }
    let fresh : Symbol :=
      ⟨root, rootDeclaration root symbol.declaredAt, .object, symbol.origin, none, none⟩
    upsert root (owning rest leaf) fresh symbols

end Declared

end FlowExpr
