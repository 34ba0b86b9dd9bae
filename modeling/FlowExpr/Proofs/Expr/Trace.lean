import FlowExpr.Proofs.Expr.Recovery

/-!
# The parser with its counters

`Rules.withBudget` says where a level is taken, but no state of it holds a number of levels. The
parser of this module counts: a depth goes up where a level is taken and comes down where it is
free again, by one step after a nested expression and by an assignment after a chain, and a
balance counts the delimiters that are open while tokens are skipped. Both are integers, so that
nothing in the definitions keeps them from going below zero.

* `Snapshot`: the state of the parser with the depth;
* `Record`, `Journal`: every change of the snapshot and every call of a routine is written down,
  a call when it returns;
* `Tracer.nested`, `Tracer.restoring`: the two ways in which levels become free;
* `Tracer.levels`: the rules. Only the depth keeps them from going deeper, so those at the bottom
  may be any rules;
* `Tracer.whole`: a whole input.
-/

namespace FlowExpr

/-! ## 1. The journal -/

/-- What is called to read something or to recover. -/
inductive Routine where
  | whole
  | expression
  | lambda
  | conditional
  | operators (looseness : Nat)
  | unary
  | access
  | primary
  | row
  | braces
  | nested
  | tooDeep
  | closing
  | unexpected
  deriving DecidableEq, Repr

/-- The state of the parser and the number of levels that are taken. -/
structure Snapshot where
  state : ParserState
  depth : Int

/-- What a record is about: the next token was taken; it was skipped, and so many delimiters are
    open after it; something was reported; the end was reached in skipping; levels were taken or
    became free; a routine was called and has returned. -/
inductive Act where
  | take
  | skip (balance : Int)
  | report
  | truncate
  | level
  | call (routine : Routine)
  deriving DecidableEq, Repr

/-- Something that was done, with the snapshots before and after it. -/
structure Record where
  act : Act
  before : Snapshot
  after : Snapshot

/-- The snapshot of now and what was done up to now. -/
structure Journal where
  now : Snapshot
  records : List Record

/-- The journal before anything was read. -/
def Journal.start (tokens : List Token) : Journal := ⟨⟨.ofTokens tokens, 0⟩, []⟩

/-- Reading with a journal. -/
abbrev Tracer (α : Type) := StateM Journal α

namespace Tracer

/-! ## 2. Looking, taking, reporting -/

/-- The next token. -/
def current : Tracer Token := return (← get).now.state.current

/-- The tokens that are left. -/
def ahead : Tracer (List Token) := return (← get).now.state.ahead

/-- Where the last token that was taken ends. -/
def lastEnd : Tracer Nat := return (← get).now.state.lastEnd

/-- How many levels are taken. -/
def depth : Tracer Int := return (← get).now.depth

/-- Change the state of the parser. -/
def change (act : Act) (f : ParserState → ParserState) : Tracer Unit :=
  modify fun j =>
    let after : Snapshot := ⟨f j.now.state, j.now.depth⟩
    ⟨after, j.records ++ [⟨act, j.now, after⟩]⟩

/-- Change the depth. -/
def setDepth (d : Int) : Tracer Unit :=
  modify fun j =>
    let after : Snapshot := ⟨j.now.state, d⟩
    ⟨after, j.records ++ [⟨.level, j.now, after⟩]⟩

/-- Call a routine. -/
def call {α : Type} (routine : Routine) (t : Tracer α) : Tracer α := do
  let before := (← get).now
  let a ← t
  modify fun j => ⟨j.now, j.records ++ [⟨.call routine, before, j.now⟩]⟩
  return a

/-- Take the next token. -/
def advance : Tracer Unit := change .take ParserState.advance

/-- Skip the next token, with so many delimiters open after it. -/
def skip (balance : Int) : Tracer Unit := change (.skip balance) ParserState.advance

/-- Record a diagnostic. -/
def report (span : Span) (problem : Problem) : Tracer Unit :=
  change .report fun s => s.report span problem

/-- Nothing is reported from now on. -/
def truncate : Tracer Unit := change .truncate fun s => { s with truncated := true }

/-- Record that the next token is not what was expected. -/
def unexpected (expected : Expected) : Tracer Unit :=
  call .unexpected do
    let token ← current
    report token.span (.unexpectedToken expected token.kind)

/-- Take the next token if it is the given sign. -/
def eat (sign : Sign) : Tracer Bool := do
  if (← current).kind = .sign sign then
    advance
    return true
  else return false

/-- Take a closing delimiter or report that it is missing. -/
def closing (sign : Sign) (delimiter : Char) : Tracer Nat :=
  call .closing do
    let token ← current
    if ← eat sign then return token.span.stop
    else
      report (Span.empty token.span.start) (.unclosed delimiter)
      lastEnd

/-! ## 3. Levels -/

/-- Skip tokens up to the delimiter that closes the surrounding construct, given how many are
    open. -/
def skipOver : Int → List Token → Tracer Unit
  | _, [] => truncate
  | balance, t :: rest =>
    if t.isOpening then do
      skip (balance + 1)
      skipOver (balance + 1) rest
    else if t.isClosing then
      if balance = 0 then return ()
      else do
        skip (balance - 1)
        skipOver (balance - 1) rest
    else do
      skip balance
      skipOver balance rest

/-- No level is left: report it, skip the construct and put an error node in its place. -/
def tooDeep : Tracer Expr :=
  call .tooDeep do
    let token ← current
    report token.span .tooDeeplyNested
    skipOver 0 (← ahead)
    return .error ⟨token.span.start, max (← lastEnd) token.span.start⟩

/-- Take a level, if one is left. -/
def descend : Tracer Bool := do
  let d ← depth
  if d < maxDepth then
    setDepth (d + 1)
    return true
  else return false

/-- Read with a level of its own. -/
def nested (t : Tracer Expr) : Tracer Expr :=
  call .nested do
    if ← descend then
      let e ← t
      setDepth ((← depth) - 1)
      return e
    else tooDeep

/-- Read, and free all levels that were taken on the way. -/
def restoring (t : Tracer Expr) : Tracer Expr := do
  let base ← depth
  let e ← t
  setDepth base
  return e

/-! ## 4. Rows and lambda heads -/

/-- Items that each follow a comma, at most as many as the given number. -/
def afterCommasUpTo {α : Type} (item : Tracer α) : Nat → Tracer (List α)
  | 0 => return []
  | n + 1 => do
    if ← eat .comma then
      let first ← item
      return first :: (← afterCommasUpTo item n)
    else return []

/-- Items that each follow a comma. -/
def afterCommas {α : Type} (item : Tracer α) : Tracer (List α) := do
  afterCommasUpTo item (← ahead).length

/-- Items separated by commas up to a closing sign; none if it comes at once. -/
def commaSeparated (item : Tracer Expr) (close : Sign) : Tracer (List Expr) :=
  call .row do
    if (← current).kind = .sign close then return []
    else
      let first ← item
      return first :: (← afterCommas item)

/-- Names separated by commas, at most as many as the given number. -/
def namesUpTo : Nat → Tracer (List Param)
  | 0 => return []
  | n + 1 => do
    let token ← current
    match token.kind with
    | .identifier name =>
      advance
      if ← eat .comma then return ⟨name, token.span⟩ :: (← namesUpTo n)
      else return [⟨name, token.span⟩]
    | _ => return []

/-- The parameters of a lambda: names in parentheses, or one name. -/
def parameters : Tracer (List Param) := do
  if ← eat .lParen then
    let params ← namesUpTo (← ahead).length
    let _ ← closing .rParen ')'
    return params
  else
    let token ← current
    match token.kind with
    | .identifier name =>
      advance
      return [⟨name, token.span⟩]
    | _ => return []

/-- Take the head of a lambda, the arrow included. -/
def lambdaHead : Tracer (List Param) := do
  let params ← parameters
  advance
  return params

/-! ## 5. The rules at one level -/

/-- How to go on where a level has to be taken first. -/
structure Rules where
  body : Tracer Expr
  unary : Tracer Expr
  access : Expr → Tracer Expr
  chain : Nat → BinaryOp → Expr → Tracer Expr

namespace Rules

/-- The postfixes after an expression. -/
def postfixes (deeper : Rules) (e : Expr) : Tracer Expr := do
  match (← current).kind with
  | .sign .dot | .sign .lBracket | .sign .lParen => deeper.access e
  | _ => return e

/-- A property name after its dot, or the report that it is missing. -/
def member (target : Expr) : Tracer Expr := do
  let dot ← current
  advance
  let token ← current
  match token.memberName? with
  | some name =>
    advance
    return .property target (some name) token.span ⟨target.span.start, token.span.stop⟩
  | none =>
    report dot.span .missingPropertyName
    return .property target none (Span.empty dot.span.stop) ⟨target.span.start, dot.span.stop⟩

/-- One postfix at the current token, and those after it. -/
def onePostfix (deeper : Rules) (e : Expr) : Tracer Expr := do
  match (← current).kind with
  | .sign .dot => deeper.postfixes (← member e)
  | .sign .lBracket =>
    advance
    let i ← deeper.body
    let stop ← closing .rBracket ']'
    deeper.postfixes (.index e i ⟨e.span.start, stop⟩)
  | .sign .lParen =>
    advance
    let args ← commaSeparated deeper.body .rParen
    let stop ← closing .rParen ')'
    deeper.postfixes (.call e args ⟨e.span.start, stop⟩)
  | _ => return e

/-- Key and value of a map. -/
def entry (deeper : Rules) : Tracer (Expr × Expr) := do
  let key ← deeper.body
  if ← eat .colon then return (key, ← deeper.body)
  else
    unexpected .colon
    return (key, .error (Span.empty (← current).span.start))

/-- Set or map after its opening brace; empty braces are a map. -/
def braces (deeper : Rules) (start : Nat) : Tracer Expr :=
  call .braces do
    let token ← current
    if ← eat .rBrace then return .map [] ⟨start, token.span.stop⟩
    else
      let first ← deeper.body
      if ← eat .colon then
        let value ← deeper.body
        let others ← afterCommas deeper.entry
        return .map ((first, value) :: others) ⟨start, ← closing .rBrace '}'⟩
      else
        let others ← afterCommas deeper.body
        return .set (first :: others) ⟨start, ← closing .rBrace '}'⟩

/-- A literal, a name, a bracketed expression or a collection. -/
def primary (deeper : Rules) : Tracer Expr :=
  call .primary do
    let token ← current
    let leaf (e : Expr) : Tracer Expr := do
      advance
      return e
    match token.kind with
    | .integer n => leaf (.literal (.integer n) token.span)
    | .decimal d => leaf (.literal (.decimal d) token.span)
    | .string text => leaf (.literal (.string text) token.span)
    | .boolean b => leaf (.literal (.boolean b) token.span)
    | .null => leaf (.literal .null token.span)
    | .identifier name => leaf (.identifier name token.span)
    | .invalid => leaf (.error token.span)
    | .sign .lParen =>
      advance
      let e ← deeper.body
      let _ ← closing .rParen ')'
      return e
    | .sign .lBracket =>
      advance
      let items ← commaSeparated deeper.body .rBracket
      return .list items ⟨token.span.start, ← closing .rBracket ']'⟩
    | .sign .lBrace =>
      advance
      deeper.braces token.span.start
    | .eof | .sign .rParen | .sign .rBracket | .sign .rBrace | .sign .comma | .sign .colon =>
      unexpected .expression
      return .error (Span.empty token.span.start)
    | _ =>
      unexpected .expression
      leaf (.error token.span)

/-- What postfixes apply to, and the postfixes. -/
def accessed (deeper : Rules) : Tracer Expr :=
  call .access <| restoring do
    deeper.postfixes (← deeper.primary)

/-- Unary operators and what they apply to. -/
def prefixed (deeper : Rules) : Tracer Expr :=
  call .unary do
    let token ← current
    match token.kind with
    | .sign s =>
      match UnaryOp.ofSign? s with
      | some op =>
        advance
        let operand ← deeper.unary
        return .unary op operand ⟨token.span.start, operand.span.stop⟩
      | none => deeper.accessed
    | _ => deeper.accessed

/-- The rest of a chain of operators that are looser by one than its operands. -/
def chainRest (deeper : Rules) (n : Nat) (left : Expr) : Tracer Expr := do
  match FlowExpr.Rules.operator? (n + 1) (← current).kind with
  | some op =>
    advance
    deeper.chain n op left
  | none => return left

/-- An expression of operators up to a looseness. -/
def climb (deeper : Rules) : Nat → Tracer Expr
  | 0 => deeper.prefixed
  | n + 1 => call (.operators (n + 1)) <| restoring do
      deeper.chainRest n (← deeper.climb n)

/-- The right operand of an operator, and the rest of the chain. -/
def rightOperand (deeper : Rules) (n : Nat) (op : BinaryOp) (left : Expr) : Tracer Expr := do
  let right ← deeper.climb n
  deeper.chainRest n (.joined op left right)

/-- A conditional, or an expression of operators. -/
def conditional (deeper : Rules) : Tracer Expr :=
  call .conditional do
    let condition ← deeper.climb BinaryOp.loosest
    if ← eat .question then
      let yes ← deeper.body
      let no ← do
        if ← eat .colon then deeper.body
        else
          unexpected .colon
          pure (.error (Span.empty (← current).span.start))
      return .ternary condition yes no
        ⟨condition.span.start, max no.span.stop yes.span.stop⟩
    else return condition

/-- A lambda, given that its head is next. -/
def lambda (deeper : Rules) : Tracer Expr :=
  call .lambda do
    let start := (← current).span.start
    let params ← lambdaHead
    let body ← deeper.body
    return .lambda params body ⟨start, body.span.stop⟩

/-- A whole expression. -/
def expression (deeper : Rules) : Tracer Expr := do
  if Parser.lambdaAhead (← ahead) then deeper.lambda else deeper.conditional

/-- The rules of a level, given those one level down: a level is taken first, and without one the
    construct is given up. -/
def within (deeper : Rules) : Rules where
  body := call .expression (nested deeper.expression)
  unary := nested deeper.prefixed
  access e := do
    if ← descend then deeper.onePostfix e
    else
      let _ ← tooDeep
      return e
  chain n op left := do
    if ← descend then deeper.rightOperand n op left
    else return .joined op left (← tooDeep)

end Rules

/-- The rules, as many levels above those at the bottom. -/
def levels (bottom : Rules) : Nat → Rules
  | 0 => bottom.within
  | n + 1 => (levels bottom n).within

/-! ## 6. Whole inputs -/

/-- Take tokens. -/
def takeAll : List Token → Tracer Unit
  | [] => return ()
  | _ :: rest => do
    advance
    takeAll rest

/-- Report what follows a complete expression, once, and skip it. -/
def trailing : Tracer Unit := do
  let token ← current
  match token.kind with
  | .eof | .invalid => pure ()
  | .sign .assign => report token.span .assignment
  | _ => unexpected .endOfExpression
  takeAll (← ahead)

/-- A whole input: one expression and nothing after it. -/
def whole (bottom : Rules) : Tracer Expr :=
  call .whole do
    let token ← current
    if token.isEof then
      report (Span.empty token.span.start) .emptyExpression
      return .error (Span.empty token.span.start)
    else
      let e ← (levels bottom maxDepth).body
      trailing
      return e

end Tracer

end FlowExpr
