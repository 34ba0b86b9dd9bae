import FlowExpr.Expr.Basic
import FlowExpr.Expr.Diagnostic

/-!
# From tokens to a tree

The grammar, from the loosest construct to the tightest:

* a conditional `a ? b : c`, or a lambda `x -> e`, `(x, y) -> e`;
* the binary operators by looseness, each level associating to the left;
* the unary operators;
* the postfixes `.name`, `[index]` and `(arguments)`;
* literals, names, parentheses, lists, sets and maps.

Reading never gives up. What cannot be read becomes an error node with a diagnostic, and a
delimiter that nobody asked for is left to whoever owns it.

Nesting is bounded. Every nested expression, unary operator, operator of a chain and postfix of
a chain takes one level of a budget of `maxDepth`, for what it holds and for the rest of its
chain; where a chain or an expression is over, its levels are free again. The rules that hold
with `n` levels left are the value `Rules.withBudget n`, and each is built from the rules one
level down, so the whole parser is one recursion on the budget. Without a level left, the input
is skipped to the delimiter that closes the surrounding construct.
-/

namespace FlowExpr

/-- Levels of nesting that reading may take. -/
def maxDepth : Nat := 128

/-- State of reading: the tokens not yet taken (without the end token), the end token, where
    the last taken token ended, whether the rest was skipped for want of levels, and the
    diagnostics so far. -/
structure ParserState where
  ahead : List Token
  eof : Token
  lastEnd : Nat
  truncated : Bool := false
  diagnostics : List Diagnostic := []

/-- Reading from a list of tokens. -/
abbrev Parser (α : Type) := StateM ParserState α

namespace ParserState

/-- The token to be looked at next. -/
def current (s : ParserState) : Token := s.ahead.headD s.eof

/-- The next token taken; the end token is never taken. -/
def advance (s : ParserState) : ParserState :=
  match s.ahead with
  | [] => s
  | t :: rest => { s with ahead := rest, lastEnd := t.span.stop }

/-- A diagnostic at the end of the list, unless the rest of the input was skipped. -/
def report (s : ParserState) (span : Span) (problem : Problem) : ParserState :=
  if s.truncated then s
  else { s with diagnostics := s.diagnostics ++ [⟨span, problem⟩] }

/-- Tokens up to the closing delimiter that matches none of the skipped ones, given how many
    delimiters are open. -/
def skipped : Nat → List Token → List Token
  | _, [] => []
  | depth, t :: rest =>
    match t.kind with
    | .sign s =>
      if s.isOpening then t :: skipped (depth + 1) rest
      else if s.isClosing then
        match depth with
        | 0 => []
        | depth + 1 => t :: skipped depth rest
      else t :: skipped depth rest
    | _ => t :: skipped depth rest

/-- Skip to the closing delimiter of the surrounding construct, or to the end. -/
def skip (s : ParserState) : ParserState :=
  let tokens := skipped 0 s.ahead
  let rest := s.ahead.drop tokens.length
  { s with
    ahead := rest
    lastEnd := (tokens.getLast?.map fun t => t.span.stop).getD s.lastEnd
    truncated := s.truncated || rest.isEmpty }

/-- Skip everything up to the end. -/
def finish (s : ParserState) : ParserState :=
  { s with
    ahead := []
    lastEnd := (s.ahead.getLast?.map fun t => t.span.stop).getD s.lastEnd }

/-- The state before anything was read. Only the tokens before the first end token count. -/
def ofTokens (tokens : List Token) : ParserState :=
  let ahead := tokens.takeWhile fun t => !t.isEof
  let eof := (tokens.find? Token.isEof).getD
    (Token.eofAt ((tokens.getLast?.map fun t => t.span.stop).getD 0))
  { ahead, eof, lastEnd := (ahead.headD eof).span.start }

end ParserState

namespace Parser

/-! ## 1. Looking, taking, reporting -/

/-- The next token. -/
def current : Parser Token := return (← get).current

/-- Take the next token. -/
def advance : Parser Unit := modify ParserState.advance

/-- Record a diagnostic. -/
def report (span : Span) (problem : Problem) : Parser Unit :=
  modify fun s => s.report span problem

/-- Record that the next token is not what was expected. -/
def unexpected (expected : Expected) : Parser Unit :=
  modify fun s => s.report s.current.span (.unexpectedToken expected s.current.kind)

/-- Take the next token if it is the given sign. -/
def eat (sign : Sign) : Parser Bool := do
  if (← current).kind = .sign sign then
    advance
    return true
  else return false

/-- Take a closing delimiter or report that it is missing. The answer is where the construct
    ends. -/
def closing (sign : Sign) (delimiter : Char) : Parser Nat := do
  let token ← current
  if ← eat sign then return token.span.stop
  else
    report (Span.empty token.span.start) (.unclosed delimiter)
    return (← get).lastEnd

/-- No level is left: report it, skip the construct and put an error node in its place. -/
def tooDeep : Parser Expr := do
  let token ← current
  report token.span .tooDeeplyNested
  modify ParserState.skip
  return .error ⟨token.span.start, max (← get).lastEnd token.span.start⟩

/-- Items that each follow a comma, at most as many as the given number. -/
def afterCommasUpTo {α : Type} (item : Parser α) : Nat → Parser (List α)
  | 0 => return []
  | n + 1 => do
    if ← eat .comma then
      let first ← item
      return first :: (← afterCommasUpTo item n)
    else return []

/-- Items that each follow a comma. Every item takes a token, so there are no more of them
    than tokens. -/
def afterCommas {α : Type} (item : Parser α) : Parser (List α) := do
  afterCommasUpTo item (← get).ahead.length

/-- Items separated by commas up to a closing sign; none if it comes at once. -/
def commaSeparated {α : Type} (item : Parser α) (close : Sign) : Parser (List α) := do
  if (← current).kind = .sign close then return []
  else
    let first ← item
    return first :: (← afterCommas item)

/-! ## 2. Lambda heads -/

/-- The tokens are names separated by commas, a closing parenthesis and an arrow. -/
def namesThenArrow : List Token → Bool
  | ⟨.identifier _, _, _⟩ :: ⟨.sign .comma, _, _⟩ :: rest => namesThenArrow rest
  | ⟨.identifier _, _, _⟩ :: ⟨.sign .rParen, _, _⟩ :: ⟨.sign .arrow, _, _⟩ :: _ => true
  | _ => false

/-- The tokens begin with the head of a lambda: `x ->`, `() ->` or `(x, y) ->`. -/
def lambdaAhead : List Token → Bool
  | ⟨.identifier _, _, _⟩ :: ⟨.sign .arrow, _, _⟩ :: _ => true
  | ⟨.sign .lParen, _, _⟩ :: ⟨.sign .rParen, _, _⟩ :: ⟨.sign .arrow, _, _⟩ :: _ => true
  | ⟨.sign .lParen, _, _⟩ :: rest => namesThenArrow rest
  | _ => false

/-- Parameters and the tokens that write them, up to the arrow. -/
def headParams : List Token → List Param
  | [] => []
  | t :: rest =>
    match t.kind with
    | .sign .arrow => []
    | .identifier name => ⟨name, t.span⟩ :: headParams rest
    | _ => headParams rest

/-- Take the head of a lambda, the arrow included. -/
def lambdaHead : Parser (List Param) := do
  let s ← get
  let head := s.ahead.takeWhile fun t => t.kind ≠ .sign .arrow
  set { s with
    ahead := s.ahead.drop (head.length + 1)
    lastEnd := (s.ahead[head.length]?.map fun (t : Token) => t.span.stop).getD s.lastEnd }
  return headParams head

end Parser

/-! ## 3. The rules at one level -/

/-- How to go on after a level of the budget was taken: with a whole expression, with a unary
    operand, with a postfix at the current token, or with the right operand of an operator that
    was just taken and the rest of its chain. -/
structure Rules where
  body : Parser Expr
  unary : Parser Expr
  access : Expr → Parser Expr
  chain : Nat → BinaryOp → Expr → Parser Expr

/-- A binary node around its operands. -/
def Expr.joined (op : BinaryOp) (left right : Expr) : Expr :=
  .binary op left right (left.span.cover right.span)

namespace Rules

open FlowExpr.Parser

/-- Nothing can be nested any more. -/
def exhausted : Rules where
  body := tooDeep
  unary := tooDeep
  access e := do
    let _ ← tooDeep
    return e
  chain _ op left := return .joined op left (← tooDeep)

/-- The postfixes after an expression. -/
def postfixes (deeper : Rules) (e : Expr) : Parser Expr := do
  match (← current).kind with
  | .sign .dot | .sign .lBracket | .sign .lParen => deeper.access e
  | _ => return e

/-- A property name after its dot, or the report that it is missing. -/
def member (target : Expr) : Parser Expr := do
  let dot ← current
  advance
  let token ← current
  match token.memberName? with
  | some name =>
    advance
    return .property target (some name) token.span ⟨target.span.start, token.span.stop⟩
  | none =>
    report dot.span .missingPropertyName
    return .property target none (Span.empty dot.span.stop) ⟨target.span.start, dot.span.stop⟩

/-- One postfix at the current token, and those after it. -/
def onePostfix (deeper : Rules) (e : Expr) : Parser Expr := do
  match (← current).kind with
  | .sign .dot => deeper.postfixes (← member e)
  | .sign .lBracket =>
    advance
    let i ← deeper.body
    let stop ← closing .rBracket ']'
    deeper.postfixes (.index e i ⟨e.span.start, stop⟩)
  | .sign .lParen =>
    advance
    let args ← commaSeparated deeper.body .rParen
    let stop ← closing .rParen ')'
    deeper.postfixes (.call e args ⟨e.span.start, stop⟩)
  | _ => return e

/-- Key and value of a map; a missing colon leaves an error in place of the value. -/
def entry (deeper : Rules) : Parser (Expr × Expr) := do
  let key ← deeper.body
  if ← eat .colon then return (key, ← deeper.body)
  else
    unexpected .colon
    return (key, .error (Span.empty (← current).span.start))

/-- Set or map after its opening brace; empty braces are a map. -/
def braces (deeper : Rules) (start : Nat) : Parser Expr := do
  let token ← current
  if ← eat .rBrace then return .map [] ⟨start, token.span.stop⟩
  else
    let first ← deeper.body
    if ← eat .colon then
      let value ← deeper.body
      let others ← afterCommas deeper.entry
      return .map ((first, value) :: others) ⟨start, ← closing .rBrace '}'⟩
    else
      let others ← afterCommas deeper.body
      return .set (first :: others) ⟨start, ← closing .rBrace '}'⟩

/-- A literal, a name, a bracketed expression or a collection. -/
def primary (deeper : Rules) : Parser Expr := do
  let token ← current
  let leaf (e : Expr) : Parser Expr := do
    advance
    return e
  match token.kind with
  | .integer n => leaf (.literal (.integer n) token.span)
  | .decimal d => leaf (.literal (.decimal d) token.span)
  | .string text => leaf (.literal (.string text) token.span)
  | .boolean b => leaf (.literal (.boolean b) token.span)
  | .null => leaf (.literal .null token.span)
  | .identifier name => leaf (.identifier name token.span)
  | .invalid => leaf (.error token.span)
  | .sign .lParen =>
    advance
    let e ← deeper.body
    let _ ← closing .rParen ')'
    return e
  | .sign .lBracket =>
    advance
    let items ← commaSeparated deeper.body .rBracket
    return .list items ⟨token.span.start, ← closing .rBracket ']'⟩
  | .sign .lBrace =>
    advance
    deeper.braces token.span.start
  | .eof | .sign .rParen | .sign .rBracket | .sign .rBrace | .sign .comma | .sign .colon =>
    unexpected .expression
    return .error (Span.empty token.span.start)
  | _ =>
    unexpected .expression
    leaf (.error token.span)

/-- Unary operators and what they apply to. -/
def prefixed (deeper : Rules) : Parser Expr := do
  let token ← current
  match token.kind with
  | .sign s =>
    match UnaryOp.ofSign? s with
    | some op =>
      advance
      let operand ← deeper.unary
      return .unary op operand ⟨token.span.start, operand.span.stop⟩
    | none => deeper.postfixes (← deeper.primary)
  | _ => deeper.postfixes (← deeper.primary)

/-- The binary operator of the given looseness that a token writes. -/
def operator? (looseness : Nat) (kind : TokenKind) : Option BinaryOp :=
  match kind with
  | .sign s => (BinaryOp.ofSign? s).filter fun op => op.looseness = looseness
  | _ => none

/-- The rest of a chain of operators that are looser by one than its operands. -/
def chainRest (deeper : Rules) (n : Nat) (left : Expr) : Parser Expr := do
  match operator? (n + 1) (← current).kind with
  | some op =>
    advance
    deeper.chain n op left
  | none => return left

/-- An expression of operators up to a looseness. -/
def climb (deeper : Rules) : Nat → Parser Expr
  | 0 => deeper.prefixed
  | n + 1 => do deeper.chainRest n (← deeper.climb n)

/-- The right operand of an operator, and the rest of the chain. -/
def rightOperand (deeper : Rules) (n : Nat) (op : BinaryOp) (left : Expr) : Parser Expr := do
  let right ← deeper.climb n
  deeper.chainRest n (.joined op left right)

/-- A conditional, or an expression of operators. A missing colon leaves an error in place of
    the second branch. -/
def conditional (deeper : Rules) : Parser Expr := do
  let condition ← deeper.climb BinaryOp.loosest
  if ← eat .question then
    let yes ← deeper.body
    let no ← do
      if ← eat .colon then deeper.body
      else
        unexpected .colon
        pure (.error (Span.empty (← current).span.start))
    return .ternary condition yes no
      ⟨condition.span.start, max no.span.stop yes.span.stop⟩
  else return condition

/-- A lambda, given that its head is next. -/
def lambda (deeper : Rules) : Parser Expr := do
  let start := (← current).span.start
  let params ← lambdaHead
  let body ← deeper.body
  return .lambda params body ⟨start, body.span.stop⟩

/-- A whole expression. -/
def expression (deeper : Rules) : Parser Expr := do
  if lambdaAhead (← get).ahead then deeper.lambda else deeper.conditional

/-- The rules of a level, given those one level down. -/
def within (deeper : Rules) : Rules where
  body := deeper.expression
  unary := deeper.prefixed
  access := deeper.onePostfix
  chain := deeper.rightOperand

/-- The rules with a number of levels left. -/
def withBudget : Nat → Rules
  | 0 => exhausted
  | n + 1 => within (withBudget n)

end Rules

/-! ## 4. Whole inputs -/

/-- A tree and everything that was wrong with its text. -/
structure Parsed where
  root : Expr
  diagnostics : List Diagnostic
  deriving Repr

namespace Parsed

/-- Something was wrong. -/
def hasErrors (p : Parsed) : Bool := !p.diagnostics.isEmpty

end Parsed

namespace Parser

/-- Report what follows a complete expression, once, and skip it. Unreadable input was
    reported before. -/
def trailing : Parser Unit := do
  let token ← current
  match token.kind with
  | .eof | .invalid => pure ()
  | .sign .assign => report token.span .assignment
  | _ => unexpected .endOfExpression
  modify ParserState.finish

/-- A whole input: one expression and nothing after it. -/
def whole : Parser Expr := do
  let token ← current
  if token.isEof then
    report (Span.empty token.span.start) .emptyExpression
    return .error (Span.empty token.span.start)
  else
    let e ← (Rules.withBudget maxDepth).body
    trailing
    return e

end Parser

/-- The tree of a list of tokens. -/
def parseTokens (tokens : List Token) : Parsed :=
  let (root, s) := Parser.whole.run (ParserState.ofTokens tokens)
  ⟨root, s.diagnostics⟩

/-- The tree of tokens that were moved to their places in a document, with the errors of
    reading them among its diagnostics. -/
def parseLexed (lexed : Lexed) (place : Span → Span) : Parsed :=
  let parsed := parseTokens (lexed.tokens.map fun t => { t with span := place t.span })
  let errors := lexed.errors.map fun e => Diagnostic.ofLexError { e with span := place e.span }
  ⟨parsed.root, Diagnostic.sort (errors ++ parsed.diagnostics)⟩

/-- The tree of a text whose first byte sits at an offset of its document. -/
def parseExpression (source : List Char) (offset : Nat) : Parsed :=
  parseLexed (lex source offset) id

/-- Document offset of a byte, where `offsets` lists them with one more for the end. -/
def mappedOffset (offsets : List Nat) (byte : Nat) : Nat :=
  offsets[byte]?.getD (offsets.getLast?.getD byte)

/-- The tree of a text whose bytes lie scattered in a document. -/
def parseMapped (source : List Char) (offsets : List Nat) : Parsed :=
  parseLexed (lex source 0) fun s =>
    ⟨mappedOffset offsets s.start, mappedOffset offsets s.stop⟩

end FlowExpr
