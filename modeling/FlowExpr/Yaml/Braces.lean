import FlowExpr.Text.Basic

/-!
# Where an embedded expression ends

An expression embedded in a text runs from a dollar sign and an opening brace to the brace that
closes it. Braces inside the expression are counted, and those inside its string literals are
not braces at all.
-/

namespace FlowExpr.Yaml

/-- Number of characters before the closing brace, given how many braces were opened since the
    start and the quote of the string literal that is open. -/
def closingBrace? : Nat → Option Char → List Char → Option Nat
  | _, _, [] => none
  | depth, some quote, c :: cs =>
    if c = '\\' then
      match cs with
      | [] => none
      | _ :: rest => (closingBrace? depth (some quote) rest).map (· + 2)
    else if c = quote then (closingBrace? depth none cs).map (· + 1)
    else (closingBrace? depth (some quote) cs).map (· + 1)
  | depth, none, c :: cs =>
    if c = '\'' ∨ c = '"' then (closingBrace? depth (some c) cs).map (· + 1)
    else if c = '{' then (closingBrace? (depth + 1) none cs).map (· + 1)
    else if c = '}' then
      match depth with
      | 0 => some 0
      | depth + 1 => (closingBrace? depth none cs).map (· + 1)
    else (closingBrace? depth none cs).map (· + 1)

/-- Number of characters of an expression whose opening was just read. -/
def expressionLength? (cs : List Char) : Option Nat := closingBrace? 0 none cs

/-- A dollar sign and an opening brace. -/
def opensExpression (c : Char) (cs : List Char) : Bool := c == '$' && cs.head? == some '{'

end FlowExpr.Yaml
