import FlowExpr.Text.Basic

/-!
# Walking over a text

Many readings of a text have one form: at a character that is not yet taken, look at what
follows, give some results, and say how many further characters belong to them. `walk` is that
form. It goes over the text once and never looks back, so it always ends.
-/

namespace FlowExpr.Text

/-- Results of a step at each character that no earlier step has taken. A step is given the
    offset, the character and what follows, and answers its results with the number of further
    characters it takes. The first number counts characters that are already taken. -/
def walk {α : Type} (step : Nat → Char → List Char → List α × Nat) :
    Nat → Nat → List Char → List α
  | _, _, [] => []
  | taken + 1, offset, c :: cs => walk step taken (offset + c.utf8Size) cs
  | 0, offset, c :: cs =>
    (step offset c cs).1 ++ walk step (step offset c cs).2 (offset + c.utf8Size) cs

/-- Going over taken characters is going on after them. -/
theorem walk_skip {α : Type} (step : Nat → Char → List Char → List α × Nat) (n offset : Nat)
    (cs : List Char) :
    walk step n offset cs = walk step 0 (offset + byteLength (cs.take n)) (cs.drop n) := by
  induction cs generalizing n offset with
  | nil => cases n <;> simp [walk]
  | cons c cs ih =>
    cases n with
    | zero => simp
    | succ n => simp [walk, ih n, Nat.add_assoc]

end FlowExpr.Text
