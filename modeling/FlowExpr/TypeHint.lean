import FlowExpr.Numeral
import FlowExpr.Text.Basic

/-!
# Type hints

The coarse type that is known of a symbol without running anything: from the spelling of a
plain value (`TypeHint.ofScalar`), or from the type name in a flow's documentation
(`TypeHint.ofTypeName`).
-/

namespace FlowExpr

/-- Coarse type of a symbol. -/
inductive TypeHint where
  | string | int | boolean | number | object | collection | map | unknown
  deriving DecidableEq, Repr

namespace TypeHint

/-- The hint as listings show it. -/
def name : TypeHint → String
  | string => "string" | int => "int" | boolean => "boolean" | number => "number"
  | object => "object" | collection => "collection" | map => "map" | unknown => "unknown"

/-! ## 1. Documented types -/

/-- Documented type names in lower case. -/
def typeNames : List (String × TypeHint) :=
  [("string", string), ("int", int), ("integer", int), ("long", int),
   ("number", number), ("float", number), ("double", number), ("decimal", number),
   ("boolean", boolean), ("bool", boolean), ("object", object), ("map", map),
   ("array", collection), ("list", collection)]

/-- Hint for a documented type: a name that ends in a pair of brackets is a collection, other
    names are read without regard to case, and an unlisted name says nothing. The listed names
    are ASCII, so only ASCII letters change case. -/
def ofTypeName (text : List Char) : TypeHint :=
  let name := Text.trim text
  if [']', '['].isPrefixOf name.reverse then collection
  else (typeNames.lookup (String.ofList (Text.lower name))).getD unknown

/-! ## 2. Plain values -/

/-- An exponent: its mark, a sign, and at least one digit. Nothing is an exponent too. -/
def isExponent : List Char → Bool
  | [] => true
  | c :: cs =>
    (c == 'e' || c == 'E') &&
      let digits := match cs with
        | '+' :: rest => rest
        | '-' :: rest => rest
        | _ => cs
      !digits.isEmpty && digits.all Text.isDigit

/-- Digits with an optional point, at least one digit, and an optional exponent. -/
def isUnsignedNumber (cs : List Char) : Bool :=
  let whole := cs.takeWhile Text.isDigit
  match cs.drop whole.length with
  | '.' :: rest =>
    let fraction := rest.takeWhile Text.isDigit
    !(whole.isEmpty && fraction.isEmpty) && isExponent (rest.drop fraction.length)
  | rest => !whole.isEmpty && isExponent rest

/-- Words for values that are not finite. -/
def isNonFinite (cs : List Char) : Bool :=
  ["inf", "infinity", "nan"].contains (String.ofList (Text.lower cs))

/-- Number with a fraction, an exponent or too many digits for an integer; after a minus sign
    also a word for a value that is not finite. -/
def isNumber : List Char → Bool
  | '-' :: rest => isUnsignedNumber rest || isNonFinite rest
  | cs => isUnsignedNumber cs

/-- The text holds the opening of an embedded expression. -/
def holdsExpression : List Char → Bool
  | [] => false
  | c :: cs => (c == '$' && cs.head? == some '{') || holdsExpression cs

/-- Hint for a plain value. A value with an embedded expression has no static type. -/
def ofScalar (text : List Char) : TypeHint :=
  let value := Text.trim text
  let word := String.ofList value
  if holdsExpression value then unknown
  else if ["", "~", "null", "Null", "NULL"].contains word then unknown
  else if ["true", "false", "True", "False", "TRUE", "FALSE"].contains word then boolean
  else if (Numeral.integer? value).isSome then int
  else if isNumber value then number
  else string

end TypeHint

end FlowExpr
