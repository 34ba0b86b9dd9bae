import FlowExpr.Token

/-!
# Operators

Binary and unary operators, the signs that write them, and how loosely each binary operator
binds: multiplication is the tightest, disjunction the loosest.
-/

namespace FlowExpr

/-- Binary operators. -/
inductive BinaryOp where
  | equal | notEqual | lessThan | greaterThan | lessEqual | greaterEqual | instanceOf
  | add | subtract | multiply | divide | modulo | concat
  | and | or
  deriving DecidableEq, Repr

/-- Unary operators, all written in front of their operand. -/
inductive UnaryOp where
  | negate | not | empty
  deriving DecidableEq, Repr

namespace BinaryOp

/-- The operator as a tree shows it. -/
def symbol : BinaryOp → String
  | equal => "==" | notEqual => "!=" | lessThan => "<" | greaterThan => ">"
  | lessEqual => "<=" | greaterEqual => ">=" | instanceOf => "instanceof"
  | add => "+" | subtract => "-" | multiply => "*" | divide => "/" | modulo => "%"
  | concat => "+=" | and => "&&" | or => "||"

/-- The operator that a sign writes. -/
def ofSign? : Sign → Option BinaryOp
  | .eqEq => some equal | .notEq => some notEqual | .lt => some lessThan
  | .gt => some greaterThan | .ltEq => some lessEqual | .gtEq => some greaterEqual
  | .instanceOf => some instanceOf | .plus => some add | .minus => some subtract
  | .star => some multiply | .slash => some divide | .percent => some modulo
  | .plusEq => some concat | .and => some and | .or => some or
  | _ => none

/-- How loosely an operator binds, from 1 for the tightest. Operators of one looseness
    associate to the left. -/
def looseness : BinaryOp → Nat
  | multiply | divide | modulo => 1
  | add | subtract => 2
  | concat => 3
  | lessThan | greaterThan | lessEqual | greaterEqual | instanceOf => 4
  | equal | notEqual => 5
  | and => 6
  | or => 7

/-- The greatest looseness. -/
def loosest : Nat := 7

theorem looseness_le (op : BinaryOp) : op.looseness ≤ loosest := by
  cases op <;> decide

theorem looseness_pos (op : BinaryOp) : 0 < op.looseness := by
  cases op <;> decide

end BinaryOp

namespace UnaryOp

/-- The operator as a tree shows it. -/
def symbol : UnaryOp → String
  | negate => "-" | not => "!" | empty => "empty"

/-- The operator that a sign writes. -/
def ofSign? : Sign → Option UnaryOp
  | .minus => some negate
  | .not => some not
  | .empty => some empty
  | _ => none

end UnaryOp

end FlowExpr
