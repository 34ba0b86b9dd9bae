import FlowExpr.Text.Class

/-!
# Numerals

Reading whole numbers from texts. A numeral is an optional sign and at least one ASCII digit,
and nothing else; a reader also has a largest value that it accepts.
-/

namespace FlowExpr.Numeral

/-- Value of an ASCII digit. -/
def digitValue (c : Char) : Nat := c.toNat - '0'.toNat

/-- Value of a row of digits, appended to a value read before. -/
def valueFrom (value : Nat) (digits : List Char) : Nat :=
  digits.foldl (fun v c => v * 10 + digitValue c) value

/-- Value of a row of digits. -/
def value (digits : List Char) : Nat := valueFrom 0 digits

/-- A non-empty row of digits. -/
def digits? (cs : List Char) : Option Nat :=
  if cs ≠ [] ∧ cs.all Text.isDigit then some (value cs) else none

/-- Natural number up to a largest value; a plus sign may stand in front. -/
def natural? (largest : Nat) (cs : List Char) : Option Nat := do
  let n ← digits? (match cs with | '+' :: rest => rest | _ => cs)
  if n ≤ largest then some n else none

/-- Integer of 64 bits in two's complement; a sign may stand in front. -/
def integer? (cs : List Char) : Option Int :=
  match cs with
  | '-' :: rest => do
    let n ← digits? rest
    if n ≤ 0x8000000000000000 then some (-(n : Int)) else none
  | _ => do
    let n ← natural? 0x7fffffffffffffff cs
    return (n : Int)

end FlowExpr.Numeral
