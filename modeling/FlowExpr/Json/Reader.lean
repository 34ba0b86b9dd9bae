import FlowExpr.Json.Basic
import FlowExpr.Numeral

/-!
# Reading structured values

The strict form: no comments, no trailing commas, no control characters inside quotes, no halves
of surrogate pairs. Values nest at most `Json.maxDepth` deep, and a number must not be larger
than what a binary number of 64 bits can hold.

* `Json.value?`: a value at the beginning of a text, with the rest;
* `Json.read?`: a text that is one value.
-/

namespace FlowExpr.Json

/-! ## 1. Blanks and words -/

/-- Characters that may stand between values. -/
def isGap (c : Char) : Bool := c = ' ' || c = '\n' || c = '\t' || c = '\r'

/-- The text without what may stand between values. -/
def skipGap (cs : List Char) : List Char := cs.dropWhile isGap

/-! ## 2. Texts -/

/-- Value of a hexadecimal digit. -/
def hexDigit? (c : Char) : Option Nat :=
  if '0' ≤ c ∧ c ≤ '9' then some (c.toNat - '0'.toNat)
  else if 'a' ≤ c ∧ c ≤ 'f' then some (c.toNat - 'a'.toNat + 10)
  else if 'A' ≤ c ∧ c ≤ 'F' then some (c.toNat - 'A'.toNat + 10)
  else none

/-- Value of four hexadecimal digits. -/
def hexUnit? (a b c d : Char) : Option Nat := do
  return (((← hexDigit? a) * 16 + (← hexDigit? b)) * 16 + (← hexDigit? c)) * 16 + (← hexDigit? d)

/-- The character that a letter after a backslash stands for. -/
def escapedChar? (c : Char) : Option Char :=
  if c = '"' ∨ c = '\\' ∨ c = '/' then some c
  else if c = 'n' then some '\n'
  else if c = 't' then some '\t'
  else if c = 'r' then some '\r'
  else if c = 'b' then some '\x08'
  else if c = 'f' then some '\x0c'
  else none

/-- First half of a surrogate pair. -/
def isHighSurrogate (n : Nat) : Bool := 0xD800 ≤ n && n < 0xDC00

/-- Second half of a surrogate pair. -/
def isLowSurrogate (n : Nat) : Bool := 0xDC00 ≤ n && n < 0xE000

/-- The character of a surrogate pair. -/
def ofSurrogates (high low : Nat) : Char :=
  Char.ofNat (0x10000 + (high - 0xD800) * 0x400 + (low - 0xDC00))

/-- One more character in front of what is read. -/
def consChar (c : Char) (r : List Char × List Char) : List Char × List Char := (c :: r.1, r.2)

/-- The characters up to the closing quote, and the rest after it. -/
def quoted? : List Char → Option (List Char × List Char)
  | [] => none
  | '"' :: rest => some ([], rest)
  | '\\' :: 'u' :: a :: b :: c :: d :: rest => do
    let unit ← hexUnit? a b c d
    if isLowSurrogate unit then none
    else if isHighSurrogate unit then
      match rest with
      | '\\' :: 'u' :: e :: f :: g :: h :: rest' => do
        let low ← hexUnit? e f g h
        if isLowSurrogate low then (quoted? rest').map (consChar (ofSurrogates unit low))
        else none
      | _ => none
    else (quoted? rest).map (consChar (Char.ofNat unit))
  | '\\' :: c :: rest => do
    let escaped ← escapedChar? c
    (quoted? rest).map (consChar escaped)
  | c :: rest => if c = '\\' ∨ c.toNat < 0x20 then none else (quoted? rest).map (consChar c)

/-! ## 3. Numbers -/

/-- The digits at the beginning of a text, at least one, and the rest. -/
def digits? (cs : List Char) : Option (List Char × List Char) :=
  match cs.takeWhile Text.isDigit with
  | [] => none
  | digits => some (digits, cs.dropWhile Text.isDigit)

/-- The digits before the point. A zero stands alone. -/
def wholeDigits? (cs : List Char) : Option (List Char × List Char) := do
  let (digits, rest) ← digits? cs
  if digits.length > 1 && digits.head? = some '0' then none else some (digits, rest)

/-- The digits after the point, if there is one. -/
def fractionDigits? : List Char → Option (List Char × List Char)
  | '.' :: rest => digits? rest
  | cs => some ([], cs)

/-- The power of ten, if there is one. -/
def power? : List Char → Option (Int × List Char)
  | c :: rest =>
    if c = 'e' ∨ c = 'E' then
      match rest with
      | '-' :: rest' => (digits? rest').map fun (ds, more) => (-(Numeral.value ds : Int), more)
      | '+' :: rest' => (digits? rest').map fun (ds, more) => ((Numeral.value ds : Int), more)
      | _ => (digits? rest).map fun (ds, more) => ((Numeral.value ds : Int), more)
    else some (0, c :: rest)
  | [] => some (0, [])

/-- The number of digits of a number that is not zero. -/
def digitCount (n : Nat) : Int := (Nat.toDigits 10 n).length

/-- Whether `n · 10 ^ e` reaches a limit. -/
def reaches (limit n : Nat) (e : Int) : Bool :=
  if 0 ≤ e then limit ≤ n * Nat.pow 10 e.toNat else limit * Nat.pow 10 (-e).toNat ≤ n

/-- Whether `n · 10 ^ e` rounds to a binary number of 64 bits: it is below the middle between the
    largest of them and the next power of two. The number of digits decides most cases. -/
def isInRange (n : Nat) (e : Int) : Bool :=
  if n = 0 ∨ digitCount n + e ≤ 308 then true
  else if 309 < digitCount n + e then false
  else !reaches (Nat.pow 2 1024 - Nat.pow 2 970) n e

/-- Whether `n · 10 ^ e` rounds to zero: it is not above the middle between zero and the smallest
    binary number of 64 bits. The number of digits decides most cases. -/
def roundsToZero (n : Nat) (e : Int) : Bool :=
  if n = 0 then true
  else if -323 < digitCount n + e then false
  else if digitCount n + e < -323 then true
  else n * Nat.pow 2 1075 ≤ Nat.pow 10 (-e).toNat

/-- The number at the beginning of a text, and the rest. -/
def number? (cs : List Char) : Option (Json × List Char) := do
  let (negative, cs) := match cs with
    | '-' :: rest => (true, rest)
    | _ => (false, cs)
  let (whole, cs) ← wholeDigits? cs
  let (fraction, cs) ← fractionDigits? cs
  let (power, cs) ← power? cs
  let mantissa := Numeral.value (whole ++ fraction)
  let exponent := power - fraction.length
  if isInRange mantissa exponent then
    some (.number (if negative then -(mantissa : Int) else mantissa) exponent, cs)
  else none

/-! ## 4. Values -/

/-- A value that holds no others. -/
def simple? (cs : List Char) : Option (Json × List Char) :=
  match cs with
  | '"' :: rest => (quoted? rest).map fun (content, more) => (.text (String.ofList content), more)
  | 'n' :: 'u' :: 'l' :: 'l' :: rest => some (.null, rest)
  | 't' :: 'r' :: 'u' :: 'e' :: rest => some (.bool true, rest)
  | 'f' :: 'a' :: 'l' :: 's' :: 'e' :: rest => some (.bool false, rest)
  | _ => number? cs

/-- Readers of a value take a text and give the value and the rest. -/
abbrev ValueReader := List Char → Option (Json × List Char)

/-- A name, a colon and a value. -/
def field? (read : ValueReader) (cs : List Char) : Option ((String × Json) × List Char) :=
  match skipGap cs with
  | '"' :: rest => do
    let (name, rest) ← quoted? rest
    match skipGap rest with
    | ':' :: rest => do
      let (value, rest) ← read (skipGap rest)
      some ((String.ofList name, value), rest)
    | _ => none
  | _ => none

/-- Entries up to a closing bracket, of which there is at least one. No more than the given
    number of them is read. -/
def entries? {α : Type} (close : Char) (read : List Char → Option (α × List Char)) :
    Nat → List Char → Option (List α × List Char)
  | 0, _ => none
  | n + 1, cs => do
    let (entry, rest) ← read (skipGap cs)
    match skipGap rest with
    | ',' :: rest => do
      let (more, rest) ← entries? close read n rest
      some (entry :: more, rest)
    | c :: rest => if c = close then some ([entry], rest) else none
    | [] => none

/-- Entries up to a closing bracket. A text has no more entries than characters. -/
def group? {α : Type} (close : Char) (read : List Char → Option (α × List Char))
    (cs : List Char) : Option (List α × List Char) :=
  match skipGap cs with
  | c :: rest => if c = close then some ([], rest) else entries? close read cs.length cs
  | [] => none

/-- The value at the beginning of a text, and the rest. The number counts the lists and objects
    that may still be opened. -/
def value? : Nat → ValueReader
  | 0, cs => simple? cs
  | depth + 1, cs =>
    match cs with
    | '[' :: rest => (group? ']' (value? depth) rest).map fun (items, more) =>
        (.list items, more)
    | '{' :: rest => (group? '}' (field? (value? depth)) rest).map fun (fields, more) =>
        (.object fields, more)
    | _ => simple? cs

/-- Lists and objects can be nested this deep. -/
def maxDepth : Nat := 127

/-- The value of a text. -/
def read? (text : List Char) : Option Json :=
  match value? maxDepth (skipGap text) with
  | some (value, rest) => if (skipGap rest).isEmpty then some value else none
  | none => none

end FlowExpr.Json
