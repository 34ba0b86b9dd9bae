import FlowExpr.Text.Basic

/-!
# Structured values as text

Values of numbers, texts, lists and named fields, and the two ways to write them: on one line,
or with one item to a line and two spaces for each level. Fields keep the order in which they
are given, unless they are sorted.
-/

namespace FlowExpr

/-- A structured value. A number is a mantissa and a power of ten. -/
inductive Json where
  | null
  | bool (value : Bool)
  | number (mantissa exponent : Int)
  | text (value : String)
  | list (items : List Json)
  | object (fields : List (String × Json))
  deriving Repr

namespace Json

instance : Inhabited Json := ⟨.null⟩

/-- A whole number. -/
def ofNat (n : Nat) : Json := .number n 0

/-- A text that may be missing. -/
def ofOption {α : Type} (f : α → Json) : Option α → Json
  | some a => f a
  | none => .null

mutual

/-- The value with the fields of every object in the order of their names. -/
def sorted : Json → Json
  | list items => list (sortedItems items)
  | object fields => object ((sortedFields fields).mergeSort fun a b => !decide (b.1 < a.1))
  | value => value

/-- Items with sorted fields. -/
def sortedItems : List Json → List Json
  | [] => []
  | item :: rest => item.sorted :: sortedItems rest

/-- Fields whose values have sorted fields. -/
def sortedFields : List (String × Json) → List (String × Json)
  | [] => []
  | (name, value) :: rest => (name, value.sorted) :: sortedFields rest

end

/-! ## 1. Texts -/

/-- Two digits in hexadecimal. -/
def hexPair (n : Nat) : List Char :=
  let digits := Nat.toDigits 16 n
  List.replicate (2 - digits.length) '0' ++ digits

/-- One character inside quotes: the quote, the backslash and controls are escaped. -/
def escapeChar (c : Char) : List Char :=
  if c = '"' then ['\\', '"']
  else if c = '\\' then ['\\', '\\']
  else if c = '\n' then ['\\', 'n']
  else if c = '\r' then ['\\', 'r']
  else if c = '\t' then ['\\', 't']
  else if c = '\x08' then ['\\', 'b']
  else if c = '\x0c' then ['\\', 'f']
  else if c.toNat < 0x20 then ['\\', 'u', '0', '0'] ++ hexPair c.toNat
  else [c]

/-- A text in quotes. -/
def quote (text : String) : String :=
  String.ofList ('"' :: text.toList.flatMap escapeChar ++ ['"'])

/-- A number; a power of ten is written only where there is one. -/
def writeNumber (mantissa exponent : Int) : String :=
  if exponent = 0 then toString mantissa else toString mantissa ++ "e" ++ toString exponent

/-! ## 2. One line -/

mutual

/-- The value on one line, without blanks. -/
def compact : Json → String
  | null => "null"
  | bool b => if b then "true" else "false"
  | number m e => writeNumber m e
  | text s => quote s
  | list items => "[" ++ compactItems true items ++ "]"
  | object fields => "\x7b" ++ compactFields true fields ++ "\x7d"

/-- Items with commas between them. -/
def compactItems (first : Bool) : List Json → String
  | [] => ""
  | item :: rest => (if first then "" else ",") ++ compact item ++ compactItems false rest

/-- Fields with commas between them. -/
def compactFields (first : Bool) : List (String × Json) → String
  | [] => ""
  | (name, value) :: rest =>
    (if first then "" else ",") ++ quote name ++ ":" ++ compact value ++ compactFields false rest

end

/-! ## 3. Many lines -/

/-- A new line at a level. -/
def newline (level : Nat) : String := "\n" ++ String.ofList (List.replicate (2 * level) ' ')

mutual

/-- The value with one item to a line, at a level. Empty lists and objects stay on one line. -/
def prettyAt (level : Nat) : Json → String
  | null => "null"
  | bool b => if b then "true" else "false"
  | number m e => writeNumber m e
  | text s => quote s
  | list [] => "[]"
  | list (item :: rest) =>
    "[" ++ prettyItems true (level + 1) (item :: rest) ++ newline level ++ "]"
  | object [] => "\x7b\x7d"
  | object (field :: rest) =>
    "\x7b" ++ prettyFields true (level + 1) (field :: rest) ++ newline level ++ "\x7d"

/-- Items, each on a line. -/
def prettyItems (first : Bool) (level : Nat) : List Json → String
  | [] => ""
  | item :: rest =>
    (if first then "" else ",") ++ newline level ++ prettyAt level item ++
      prettyItems false level rest

/-- Fields, each on a line. -/
def prettyFields (first : Bool) (level : Nat) : List (String × Json) → String
  | [] => ""
  | (name, value) :: rest =>
    (if first then "" else ",") ++ newline level ++ quote name ++ ": " ++ prettyAt level value ++
      prettyFields false level rest

end

/-- The value with one item to a line. -/
def pretty (value : Json) : String := prettyAt 0 value

/-- The value in the asked form. -/
def write (isPretty : Bool) (value : Json) : String :=
  if isPretty then value.pretty else value.compact

end Json

end FlowExpr
