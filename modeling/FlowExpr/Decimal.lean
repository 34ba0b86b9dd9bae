import FlowExpr.Numeral

/-!
# Decimal numbers

A decimal is an integer coefficient with a number of fraction digits. The coefficient has at
most 96 bits and there are at most 28 fraction digits; trailing zeros of the fraction are kept,
so `1.50` and `1.5` are different decimals.

* `Decimal.readPlain?` reads the plain form and rounds a fraction that is too long to keep;
* `Decimal.readScientific?` reads the form with an exponent and keeps every digit;
* `Decimal.read?` reads both forms and rounds;
* `Decimal.toString` writes the plain form.
-/

namespace FlowExpr

/-- Integer coefficient and number of fraction digits. -/
structure Decimal where
  coefficient : Int
  scale : Nat
  coefficient_lt : coefficient.natAbs < 0x1000000000000000000000000
  scale_le : scale ≤ 28
  deriving DecidableEq, Repr

namespace Decimal

/-- Coefficients have 96 bits: they stay below this bound. -/
def bound : Nat := 0x1000000000000000000000000

/-- Largest number of fraction digits. -/
def maxScale : Nat := 28

/-- A decimal, if coefficient and scale are within their bounds. -/
def make? (coefficient : Int) (scale : Nat) : Option Decimal :=
  if h : coefficient.natAbs < bound ∧ scale ≤ 28 then some ⟨coefficient, scale, h.1, h.2⟩
  else none

/-! ## 1. Reading -/

/-- What has been read of a numeral: its digits as one number, how many of them belong to the
    fraction, and whether a point or a digit was seen. -/
structure Progress where
  value : Nat := 0
  scale : Nat := 0
  point : Bool := false
  digit : Bool := false

/-- A coefficient whose fraction goes on with a digit that is not kept: five or more rounds up.
    If that leaves the range, the last digit is given up. -/
def rounded? (value scale : Nat) (next : Char) : Option (Nat × Nat) :=
  if Numeral.digitValue next < 5 then some (value, scale)
  else if value + 1 < bound then some (value + 1, scale)
  else if scale = 0 then none
  else some ((value + 5) / 10, scale - 1)

/-- End of a numeral whose fraction is as long as can be: only digits and underscores follow, and
    the first digit counts for the rounding. -/
def endRounded? (value scale : Nat) (rest : List Char) : Option (Nat × Nat) :=
  if rest.all fun c => Text.isDigit c || c == '_' then
    match rest.find? Text.isDigit with
    | some next => rounded? value scale next
    | none => some (value, scale)
  else none

/-- Coefficient and scale of an unsigned numeral. An underscore may follow a digit. -/
def readDigits (p : Progress) : List Char → Option (Nat × Nat)
  | [] => if p.digit then some (p.value, p.scale) else none
  | c :: cs =>
    if p.point && maxScale ≤ p.scale then endRounded? p.value p.scale (c :: cs)
    else if Text.isDigit c then
      let value := p.value * 10 + Numeral.digitValue c
      if value < bound then
        readDigits ⟨value, if p.point then p.scale + 1 else p.scale, p.point, true⟩ cs
      else if p.point then endRounded? p.value p.scale (c :: cs)
      else none
    else if c == '.' && !p.point then readDigits ⟨p.value, p.scale, true, p.digit⟩ cs
    else if c == '_' && p.digit then readDigits p cs
    else none

/-- Decimal in plain form, with an optional sign. -/
def readPlain? (cs : List Char) : Option Decimal :=
  match cs with
  | '-' :: rest => do
    let (value, scale) ← readDigits ⟨0, 0, false, false⟩ rest
    make? (-(value : Int)) scale
  | '+' :: rest => do
    let (value, scale) ← readDigits ⟨0, 0, false, false⟩ rest
    make? value scale
  | _ => do
    let (value, scale) ← readDigits ⟨0, 0, false, false⟩ cs
    make? value scale

/-- Exponents are read up to this value, which has 32 bits. -/
def largestExponent : Nat := 0xffffffff

/-- Move the point to the left. -/
def shiftLeft? (d : Decimal) (places : Nat) : Option Decimal :=
  make? d.coefficient (d.scale + places)

/-- Move the point to the right. Fraction digits are used up first; a longer move multiplies
    the coefficient and leaves no fraction. -/
def shiftRight? (d : Decimal) (places : Nat) : Option Decimal :=
  if places ≤ d.scale then make? d.coefficient (d.scale - places)
  else if maxScale < places then none
  else make? (d.coefficient * (Nat.pow 10 (places - d.scale) : Nat)) 0

/-- Decimal in plain form with an exponent. Fraction digits are not rounded away. -/
def readScientific? (base exponent : List Char) : Option Decimal := do
  let d ← readPlain? base
  match exponent with
  | '-' :: rest => d.shiftLeft? (← Numeral.natural? largestExponent rest)
  | _ => d.shiftRight? (← Numeral.natural? largestExponent exponent)

/-- A coefficient without its last digits; half a unit and more counts as a whole one. There is
    one digit more than the largest scale at most, so taking off two more leaves nothing. -/
def withoutDigits (value digits : Nat) : Nat :=
  if digits = 0 then value
  else if maxScale + 1 < digits then 0
  else (value + 5 * Nat.pow 10 (digits - 1)) / Nat.pow 10 digits

/-- Taking digits off a coefficient is one division, however many they are. -/
theorem withoutDigits_succ {value : Nat} (h : value < bound) (n : Nat) :
    withoutDigits value (n + 1) = (value + 5 * Nat.pow 10 n) / Nat.pow 10 (n + 1) := by
  unfold withoutDigits maxScale
  split
  · omega
  · split
    · have large : Nat.pow 10 29 ≤ Nat.pow 10 n := Nat.pow_le_pow_right (by decide) (by omega)
      have small : value < 5 * Nat.pow 10 29 := Nat.lt_trans h (by decide)
      have next : Nat.pow 10 (n + 1) = Nat.pow 10 n * 10 := rfl
      have below : value + 5 * Nat.pow 10 n < Nat.pow 10 (n + 1) := by omega
      exact (Nat.div_eq_of_lt below).symm
    · rfl

/-- The decimal times a power of ten. A fraction that becomes too long is rounded. -/
def scaledBy? (d : Decimal) (exponent : Int) : Option Decimal :=
  let places : Int := d.scale - exponent
  if places < 0 then
    if d.coefficient = 0 then make? 0 0
    else if (maxScale : Int) < -places then none
    else make? (d.coefficient * (Nat.pow 10 (-places).toNat : Nat)) 0
  else
    let value := withoutDigits d.coefficient.natAbs (places.toNat - maxScale)
    make? (d.coefficient.sign * value) (min places.toNat maxScale)

/-- An exponent: digits with an optional sign. -/
def exponent? (cs : List Char) : Option Int :=
  let digits? (ds : List Char) : Option Nat :=
    (Numeral.digits? ds).filter (· ≤ largestExponent)
  match cs with
  | '-' :: rest => (digits? rest).map fun n => -(n : Int)
  | '+' :: rest => (digits? rest).map Int.ofNat
  | _ => (digits? cs).map Int.ofNat

/-- The letter before an exponent. -/
def isExponentMark (c : Char) : Bool := c == 'e' || c == 'E'

/-- Decimal in plain form or with an exponent. -/
def read? (cs : List Char) : Option Decimal := do
  let d ← readPlain? (cs.takeWhile fun c => !isExponentMark c)
  match cs.dropWhile fun c => !isExponentMark c with
  | [] => return d
  | _ :: exponent => d.scaledBy? (← exponent? exponent)

/-! ## 2. Writing -/

/-- Digits of a number, filled up with zeros to a width. -/
def paddedDigits (width n : Nat) : List Char :=
  let digits := Nat.toDigits 10 n
  List.replicate (width - digits.length) '0' ++ digits

/-- Plain form: at least one digit before the point, and all fraction digits. -/
def toString (d : Decimal) : String :=
  let digits := paddedDigits (d.scale + 1) d.coefficient.natAbs
  let whole := digits.take (digits.length - d.scale)
  let fraction := digits.drop (digits.length - d.scale)
  String.ofList ((if d.coefficient < 0 then ['-'] else []) ++ whole ++
    (if d.scale = 0 then [] else '.' :: fraction))

end Decimal

end FlowExpr
