import FlowExpr.Analysis.Query

/-!
# Commands

What the program can be asked to do, and how a row of arguments says so.

* `Command`: the commands with their options;
* `Options.read?`: options and plain arguments of a command;
* `Command.ofArguments?`: the command of a row of arguments, if they are one.
-/

namespace FlowExpr

/-- A command. A missing file means that the document comes from the standard input. -/
inductive Command where
  | checkDocument (file : Option String) (json pretty : Bool)
  | checkExpression (source : String) (json pretty : Bool)
  | query (query : Query) (cursor : String) (file : Option String) (pretty : Bool)
  | tokens (source : String) (pretty : Bool)
  | docs (name : Option String)
  deriving DecidableEq, Repr

/-! ## 1. Options -/

/-- Which options a command has. -/
structure OptionSet where
  expression : Bool := false
  json : Bool := false
  pretty : Bool := false
  deriving DecidableEq, Repr

/-- What the arguments of a command say. -/
structure Options where
  plain : List String := []
  expression : Option String := none
  json : Bool := false
  pretty : Bool := false
  deriving DecidableEq, Repr

namespace Options

/-- The options with an expression. An option is given at most once. -/
def withExpression? (allowed : OptionSet) (o : Options) (source : List Char) : Option Options :=
  if allowed.expression && o.expression.isNone then
    some { o with expression := some (String.ofList source) }
  else none

/-- The options with structured output. -/
def withJson? (allowed : OptionSet) (o : Options) : Option Options :=
  if allowed.json && !o.json then some { o with json := true } else none

/-- The options with output on many lines. -/
def withPretty? (allowed : OptionSet) (o : Options) : Option Options :=
  if allowed.pretty && !o.pretty then some { o with pretty := true } else none

/-- The options after an argument, and whether the value of an expression is still to come. -/
abbrev Step := Options × Bool

/-- Letters after a hyphen. The letter of the expression takes what follows it as its value. -/
def letters? (allowed : OptionSet) (o : Options) : List Char → Option Step
  | [] => some (o, false)
  | 'p' :: rest => do letters? allowed (← o.withPretty? allowed) rest
  | 'e' :: [] => if allowed.expression && o.expression.isNone then some (o, true) else none
  | 'e' :: '=' :: value => (o.withExpression? allowed value).map (·, false)
  | 'e' :: value => (o.withExpression? allowed value).map (·, false)
  | _ => none

/-- A word after two hyphens, with its value if there is an equals sign. -/
def word? (allowed : OptionSet) (o : Options) (cs : List Char) : Option Step :=
  match String.ofList (cs.takeWhile (· ≠ '=')), cs.dropWhile (· ≠ '=') with
  | "json", [] => (o.withJson? allowed).map (·, false)
  | "pretty", [] => (o.withPretty? allowed).map (·, false)
  | "expression", [] => if allowed.expression && o.expression.isNone then some (o, true) else none
  | "expression", _ :: value => (o.withExpression? allowed value).map (·, false)
  | _, _ => none

/-- The argument is an option, or ends the options. A single hyphen is a plain argument. -/
def isOption : List Char → Bool
  | '-' :: _ :: _ => true
  | _ => false

/-- Read arguments, after some options are read and perhaps in wait for a value. After two
    hyphens everything is plain. -/
def readFrom? (allowed : OptionSet) : Step → List String → Option Options
  | (_, true), [] => none
  | (o, false), [] => some o
  | (o, true), arg :: rest =>
    if isOption arg.toList then none
    else do readFrom? allowed (← o.withExpression? allowed arg.toList, false) rest
  | (o, false), arg :: rest =>
    match arg.toList with
    | ['-', '-'] => some { o with plain := o.plain ++ rest }
    | '-' :: '-' :: word => do readFrom? allowed (← o.word? allowed word) rest
    | '-' :: c :: more => do readFrom? allowed (← o.letters? allowed (c :: more)) rest
    | _ => readFrom? allowed ({ o with plain := o.plain ++ [arg] }, false) rest

/-- Read the arguments of a command. -/
def read? (allowed : OptionSet) (args : List String) : Option Options :=
  readFrom? allowed ({}, false) args

end Options

/-! ## 2. Commands -/

namespace Command

/-- A file that may be missing. Its name is not empty. -/
def file? : List String → Option (Option String)
  | [] => some none
  | [path] => if path.isEmpty then none else some (some path)
  | _ => none

/-- The check of a document or of an expression, not both. -/
def check? (args : List String) : Option Command := do
  let o ← Options.read? ⟨true, true, true⟩ args
  match o.expression with
  | some source => if o.plain.isEmpty then some (.checkExpression source o.json o.pretty) else none
  | none => return .checkDocument (← file? o.plain) o.json o.pretty

/-- A question about a place in a document. -/
def query? (query : Query) (args : List String) : Option Command := do
  let o ← Options.read? ⟨false, false, true⟩ args
  match o.plain with
  | [] => none
  | cursor :: rest => return .query query cursor (← file? rest) o.pretty

/-- The tokens of an expression. -/
def tokens? (args : List String) : Option Command := do
  let o ← Options.read? ⟨true, false, true⟩ args
  if o.plain.isEmpty then return .tokens (← o.expression) o.pretty else none

/-- A page of the manual. -/
def docs? (args : List String) : Option Command := do
  let o ← Options.read? ⟨false, false, false⟩ args
  match o.plain with
  | [] => some (.docs none)
  | [name] => some (.docs (some name))
  | _ => none

/-- The command of a row of arguments. -/
def ofArguments? : List String → Option Command
  | "check" :: args => check? args
  | "complete" :: args => query? .complete args
  | "goto" :: args => query? .goto args
  | "usages" :: args => query? .usages args
  | "resolve" :: args => query? .resolve args
  | "tokens" :: args => tokens? args
  | "docs" :: args => docs? args
  | _ => none

end Command

end FlowExpr
