import FlowExpr.Scope.Resolution

/-!
# References

The places of a tree that name a symbol: names, named properties, and calls of a bare name,
each with the lambda parameters that are visible there.

* `references`: all of them, in source order;
* `locate?`: the one at a caret.
-/

namespace FlowExpr

/-- A node that names a symbol, the range of the name, and the parameters of the lambdas
    around it, the outermost first. -/
structure Reference where
  node : Expr
  nameSpan : Span
  params : List Param
  deriving Repr

/-! ## 1. All references -/

mutual

/-- References of a tree below lambdas that bind the given parameters. -/
def referencesIn (params : List Param) : Expr → List Reference
  | .literal .. | .error _ => []
  | .identifier name s => [⟨.identifier name s, s, params⟩]
  | .property target name nameSpan s =>
    referencesIn params target ++
      match name with
      | some _ => [⟨.property target name nameSpan s, nameSpan, params⟩]
      | none => []
  | .index target i _ => referencesIn params target ++ referencesIn params i
  | .call target args s =>
    (match target with
      | .identifier _ nameSpan => [⟨.call target args s, nameSpan, params⟩]
      | _ => referencesIn params target) ++ referencesInList params args
  | .binary _ left right _ => referencesIn params left ++ referencesIn params right
  | .unary _ operand _ => referencesIn params operand
  | .ternary condition yes no _ =>
    referencesIn params condition ++ referencesIn params yes ++ referencesIn params no
  | .list items _ | .set items _ => referencesInList params items
  | .map entries _ => referencesInEntries params entries
  | .lambda inner body _ => referencesIn (params ++ inner) body

/-- References of several trees. -/
def referencesInList (params : List Param) : List Expr → List Reference
  | [] => []
  | e :: es => referencesIn params e ++ referencesInList params es

/-- References of the entries of a map, key before value. -/
def referencesInEntries (params : List Param) : List (Expr × Expr) → List Reference
  | [] => []
  | (key, value) :: rest =>
    referencesIn params key ++ referencesIn params value ++ referencesInEntries params rest

end

/-- All references of a tree, in source order. -/
def references (root : Expr) : List Reference := referencesIn [] root

/-! ## 2. The reference at a caret -/

mutual

/-- The reference at a caret in a tree below lambdas that bind the given parameters. A node
    that the caret does not touch is not searched; a property name and the name of a call come
    before what they apply to. -/
def locateIn? (offset : Nat) (params : List Param) (e : Expr) : Option Reference :=
  if !e.span.touches offset then none
  else
    match e with
    | .literal .. => none
    | .identifier _ s | .error s => some ⟨e, s, params⟩
    | .property target _ nameSpan _ =>
      if nameSpan.touches offset then some ⟨e, nameSpan, params⟩
      else locateIn? offset params target
    | .index target i _ =>
      (locateIn? offset params target).or (locateIn? offset params i)
    | .call target args _ =>
      match target with
      | .identifier _ nameSpan =>
        if nameSpan.touches offset then some ⟨e, nameSpan, params⟩
        else locateInList? offset params args
      | _ => (locateIn? offset params target).or (locateInList? offset params args)
    | .binary _ left right _ =>
      (locateIn? offset params left).or (locateIn? offset params right)
    | .unary _ operand _ => locateIn? offset params operand
    | .ternary condition yes no _ =>
      (locateIn? offset params condition).or
        ((locateIn? offset params yes).or (locateIn? offset params no))
    | .list items _ | .set items _ => locateInList? offset params items
    | .map entries _ => locateInEntries? offset params entries
    | .lambda inner body _ => locateIn? offset (params ++ inner) body

/-- The reference at a caret in the first of several trees that has one. -/
def locateInList? (offset : Nat) (params : List Param) : List Expr → Option Reference
  | [] => none
  | e :: es => (locateIn? offset params e).or (locateInList? offset params es)

/-- The reference at a caret in the first entry of a map that has one. -/
def locateInEntries? (offset : Nat) (params : List Param) :
    List (Expr × Expr) → Option Reference
  | [] => none
  | (key, value) :: rest =>
    (locateIn? offset params key).or
      ((locateIn? offset params value).or (locateInEntries? offset params rest))

end

/-- The reference at a caret. The end of a name counts, so a caret right after it is at it. -/
def locate? (root : Expr) (offset : Nat) : Option Reference := locateIn? offset [] root

end FlowExpr
