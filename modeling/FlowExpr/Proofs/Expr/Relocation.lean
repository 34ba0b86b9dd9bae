import FlowExpr.Expr.Parser
import Mathlib.Order.MinMax

/-!
# Moving everything to other places

Tokens, trees and diagnostics carry byte offsets. This file fixes what it means to move all of
them at once along a map of offsets:

* `Span.relocate`, `Token.relocate`, `Expr.relocate`, `Diagnostic.relocate`: every offset
  replaced, nothing else touched (a diagnostic about unreadable input also keeps a range inside
  its cause, and that one moves too);
* `Expr.unplaced`: the tree with every offset forgotten, so that two trees are equal up to
  their places exactly if their `unplaced` forms are equal;
* `Expr.relocate_relocate`: two moves after one another are one move along the composed map.
-/

namespace FlowExpr

/-! ## 1. Ranges, tokens, parameters -/

/-- The range with both ends moved. -/
def Span.relocate (f : Nat → Nat) (s : Span) : Span := ⟨f s.start, f s.stop⟩

@[simp] theorem Span.relocate_start (f : Nat → Nat) (s : Span) :
    (s.relocate f).start = f s.start := rfl

@[simp] theorem Span.relocate_stop (f : Nat → Nat) (s : Span) :
    (s.relocate f).stop = f s.stop := rfl

@[simp] theorem Span.relocate_relocate (f g : Nat → Nat) (s : Span) :
    (s.relocate g).relocate f = s.relocate (f ∘ g) := rfl

/-- Places moved along a map that keeps the order are covered by the moved cover. -/
theorem Span.relocate_cover {f : Nat → Nat} (hf : Monotone f) (s t : Span) :
    (s.cover t).relocate f = (s.relocate f).cover (t.relocate f) := by
  simp only [Span.cover, Span.relocate, hf.map_min, hf.map_max]

/-- The token at another place. -/
def Token.relocate (f : Nat → Nat) (t : Token) : Token := { t with span := t.span.relocate f }

@[simp] theorem Token.relocate_kind (f : Nat → Nat) (t : Token) :
    (t.relocate f).kind = t.kind := rfl

@[simp] theorem Token.relocate_span (f : Nat → Nat) (t : Token) :
    (t.relocate f).span = t.span.relocate f := rfl

@[simp] theorem Token.relocate_isEof (f : Nat → Nat) (t : Token) :
    (t.relocate f).isEof = t.isEof := rfl

@[simp] theorem Token.relocate_memberName? (f : Nat → Nat) (t : Token) :
    (t.relocate f).memberName? = t.memberName? := rfl

/-- The parameter at another place. -/
def Param.relocate (f : Nat → Nat) (p : Param) : Param := { p with span := p.span.relocate f }

/-! ## 2. Trees -/

namespace Expr

mutual

/-- The tree with every range moved: those of nodes, of property names and of parameters. -/
@[simp] def relocate (f : Nat → Nat) : Expr → Expr
  | literal value s => .literal value (s.relocate f)
  | identifier name s => .identifier name (s.relocate f)
  | property target name nameSpan s =>
    .property (target.relocate f) name (nameSpan.relocate f) (s.relocate f)
  | index target i s => .index (target.relocate f) (i.relocate f) (s.relocate f)
  | call target args s => .call (target.relocate f) (relocateList f args) (s.relocate f)
  | binary op left right s =>
    .binary op (left.relocate f) (right.relocate f) (s.relocate f)
  | unary op operand s => .unary op (operand.relocate f) (s.relocate f)
  | ternary condition yes no s =>
    .ternary (condition.relocate f) (yes.relocate f) (no.relocate f) (s.relocate f)
  | list items s => .list (relocateList f items) (s.relocate f)
  | set items s => .set (relocateList f items) (s.relocate f)
  | map entries s => .map (relocateEntries f entries) (s.relocate f)
  | lambda params body s =>
    .lambda (params.map (Param.relocate f)) (body.relocate f) (s.relocate f)
  | error s => .error (s.relocate f)

/-- Several trees moved. -/
def relocateList (f : Nat → Nat) : List Expr → List Expr
  | [] => []
  | e :: es => e.relocate f :: relocateList f es

/-- Entries of a map moved, key and value alike. -/
def relocateEntries (f : Nat → Nat) : List (Expr × Expr) → List (Expr × Expr)
  | [] => []
  | (key, value) :: rest => (key.relocate f, value.relocate f) :: relocateEntries f rest

end

@[simp] theorem relocateList_eq_map (f : Nat → Nat) (es : List Expr) :
    relocateList f es = es.map (relocate f) := by
  induction es with
  | nil => rfl
  | cons e es ih => rw [relocateList, ih]; rfl

@[simp] theorem relocateEntries_eq_map (f : Nat → Nat) (es : List (Expr × Expr)) :
    relocateEntries f es = es.map (Prod.map (relocate f) (relocate f)) := by
  induction es with
  | nil => rfl
  | cons entry es ih => obtain ⟨key, value⟩ := entry; rw [relocateEntries, ih]; rfl

@[simp] theorem span_relocate (f : Nat → Nat) (e : Expr) :
    (e.relocate f).span = e.span.relocate f := by
  cases e <;> rfl

theorem relocate_joined {f : Nat → Nat} (hf : Monotone f) (op : BinaryOp) (left right : Expr) :
    (joined op left right).relocate f = joined op (left.relocate f) (right.relocate f) := by
  simp only [joined, relocate, span_relocate, Span.relocate_cover hf]

mutual

/-- **Two moves are one move along the composed map.** -/
theorem relocate_relocate (f g : Nat → Nat) :
    ∀ e : Expr, (e.relocate g).relocate f = e.relocate (f ∘ g)
  | literal .. | identifier .. | error _ => rfl
  | property target .. => by simp [relocate_relocate f g target]
  | index target i _ => by simp [relocate_relocate f g target, relocate_relocate f g i]
  | call target args _ => by
      simpa [relocate_relocate f g target] using relocateList_relocateList f g args
  | binary _ left right _ => by
      simp [relocate_relocate f g left, relocate_relocate f g right]
  | unary _ operand _ => by simp [relocate_relocate f g operand]
  | ternary condition yes no _ => by
      simp [relocate_relocate f g condition, relocate_relocate f g yes, relocate_relocate f g no]
  | list items _ => by simpa using relocateList_relocateList f g items
  | set items _ => by simpa using relocateList_relocateList f g items
  | map entries _ => by simpa using relocateEntries_relocateEntries f g entries
  | lambda params body _ => by
      simp [relocate_relocate f g body, Param.relocate]

theorem relocateList_relocateList (f g : Nat → Nat) :
    ∀ es : List Expr, relocateList f (relocateList g es) = relocateList (f ∘ g) es
  | [] => rfl
  | e :: es => by
      rw [relocateList, relocateList, relocateList, relocate_relocate f g e,
        relocateList_relocateList f g es]

theorem relocateEntries_relocateEntries (f g : Nat → Nat) :
    ∀ es : List (Expr × Expr),
      relocateEntries f (relocateEntries g es) = relocateEntries (f ∘ g) es
  | [] => rfl
  | (key, value) :: rest => by
      rw [relocateEntries, relocateEntries, relocateEntries, relocate_relocate f g key,
        relocate_relocate f g value, relocateEntries_relocateEntries f g rest]

end

/-- The tree with its places forgotten. -/
def unplaced (e : Expr) : Expr := e.relocate fun _ => 0

section Unplaced

variable (e e₁ e₂ e₃ : Expr) (es : List Expr) (s s' : Span)

theorem unplaced_property (name : Option String) :
    (property e name s' s).unplaced = .property e.unplaced name ⟨0, 0⟩ ⟨0, 0⟩ := rfl

theorem unplaced_index : (index e₁ e₂ s).unplaced = .index e₁.unplaced e₂.unplaced ⟨0, 0⟩ := rfl

theorem unplaced_call : (call e es s).unplaced = .call e.unplaced (es.map unplaced) ⟨0, 0⟩ := by
  simp only [unplaced, relocate, relocateList_eq_map]
  rfl

theorem unplaced_binary (op : BinaryOp) :
    (binary op e₁ e₂ s).unplaced = .binary op e₁.unplaced e₂.unplaced ⟨0, 0⟩ := rfl

theorem unplaced_unary (op : UnaryOp) : (unary op e s).unplaced = .unary op e.unplaced ⟨0, 0⟩ :=
  rfl

theorem unplaced_ternary : (ternary e₁ e₂ e₃ s).unplaced =
    .ternary e₁.unplaced e₂.unplaced e₃.unplaced ⟨0, 0⟩ := rfl

theorem unplaced_list : (list es s).unplaced = .list (es.map unplaced) ⟨0, 0⟩ := by
  simp only [unplaced, relocate, relocateList_eq_map]
  rfl

theorem unplaced_set : (set es s).unplaced = .set (es.map unplaced) ⟨0, 0⟩ := by
  simp only [unplaced, relocate, relocateList_eq_map]
  rfl

theorem unplaced_map (entries : List (Expr × Expr)) :
    (map entries s).unplaced = .map (entries.map (Prod.map unplaced unplaced)) ⟨0, 0⟩ := by
  simp only [unplaced, relocate, relocateEntries_eq_map]
  rfl

theorem unplaced_lambda (params : List Param) : (lambda params e s).unplaced =
    .lambda (params.map (Param.relocate fun _ => 0)) e.unplaced ⟨0, 0⟩ := rfl

end Unplaced

end Expr

/-! ## 3. Errors and diagnostics -/

/-- The error at another place. -/
def LexError.relocate (f : Nat → Nat) (e : LexError) : LexError :=
  { e with span := e.span.relocate f }

/-- The cause with the place that it keeps moved. -/
def Problem.relocate (f : Nat → Nat) : Problem → Problem
  | lexical error => .lexical (error.relocate f)
  | problem => problem

/-- The diagnostic at another place. -/
def Diagnostic.relocate (f : Nat → Nat) (d : Diagnostic) : Diagnostic :=
  ⟨d.span.relocate f, d.problem.relocate f⟩

theorem Diagnostic.relocate_relocate (f g : Nat → Nat) (d : Diagnostic) :
    (d.relocate g).relocate f = d.relocate (f ∘ g) := by
  obtain ⟨span, problem⟩ := d
  cases problem <;> rfl

/-! ## 4. Whole texts -/

/-- The parts of a text's diagnostics: those of its tokens, and those of its tree. -/
theorem parseExpression_eq (source : List Char) (offset : Nat) :
    parseExpression source offset =
      ⟨(parseTokens (lex source offset).tokens).root,
        Diagnostic.sort ((lex source offset).errors.map Diagnostic.ofLexError ++
          (parseTokens (lex source offset).tokens).diagnostics)⟩ := by
  have htokens : (lex source offset).tokens.map (fun t => { t with span := id t.span }) =
      (lex source offset).tokens := List.map_id _
  show (⟨(parseTokens _).root, Diagnostic.sort (_ ++ (parseTokens _).diagnostics)⟩ : Parsed) = _
  rw [htokens]
  rfl

end FlowExpr
