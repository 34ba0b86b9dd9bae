import FlowExpr.Symbol.Builtin
import FlowExpr.Symbol.Listing

/-!
# Manual

Pages for a reader: an overview, a page for each topic, and a page for each variable and
function of the runtime.

* `Topic.ofName?`: a topic by one of its names, in any case;
* `Manual.page?`: the page of a topic, or of a variable or function.
-/

namespace FlowExpr

/-! ## 1. Topics -/

/-- Subjects that have a page of their own. -/
inductive Topic where
  | expressions | operators | contextVariables | functions | scopes | flowDocs
  deriving DecidableEq, Repr

/-- A topic by its name or by a short form of it. Case does not count, and a hyphen is as good
    as an underscore. Only ASCII letters can lower to a letter of these names. -/
def Topic.ofName? (name : String) : Option Topic :=
  match String.ofList ((Text.lower name.toList).map fun c => if c = '-' then '_' else c) with
  | "syntax" => some expressions
  | "operators" | "ops" => some operators
  | "variables" | "vars" | "builtins" => some contextVariables
  | "functions" | "fns" => some functions
  | "scopes" | "scope" => some scopes
  | "flow_docs" | "flowdocs" | "flow_doc" => some flowDocs
  | _ => none

namespace Manual

/-! ## 2. Written pages -/

/-- The list of topics. -/
def overviewLines : List String :=
  ["CONCORD EL DOCUMENTATION",
   "",
   "Concord workflow files embed expressions in YAML values using $\x7b...\x7d. The",
   "expressions can read process variables, built-in objects and flow",
   "parameters, and call built-in functions.",
   "",
   "DOCUMENTATION TOPICS",
   "",
   "  syntax            Literals, property access, index access, calls, lambdas",
   "  operators         Arithmetic, comparison, logical and keyword operators",
   "  variables         Built-in variables and their properties",
   "  functions         Built-in functions",
   "  scopes            Which variables are visible where",
   "  flow-docs         Documenting flow parameters with ## comments",
   "",
   "Run 'concord-el docs <topic>' for a topic, or 'concord-el docs <name>' for a",
   "single built-in variable or function."]

/-- How expressions are written. -/
def expressionLines : List String :=
  ["SYNTAX - Expressions in Concord Files",
   "",
   "EMBEDDING",
   "  $\x7bexpression\x7d",
   "    Any YAML value may contain one or more expressions.",
   "",
   "    Example:",
   "      - log: \"Started by $\x7binitiator.username\x7d\"",
   "",
   "LITERALS",
   "  42  3.14  .5  1e5       Numbers",
   "  'text'  \"text\"          Strings (escapes: \\n \\t \\r \\\\ \\' \\\" \\$ \\\x7b)",
   "  true  false  null       Keywords",
   "  [1, 2, 3]               List",
   "  \x7b'a': 1, 'b': 2\x7d        Map",
   "  \x7b1, 2\x7d                  Set",
   "",
   "PROPERTY ACCESS",
   "  initiator.username",
   "    Keywords are valid property names: obj.empty, obj.class",
   "",
   "INDEX ACCESS",
   "  items[0]",
   "  headers['Content-Type']",
   "",
   "CALLS",
   "  uuid()",
   "  context.getVariable('name')",
   "",
   "LAMBDAS",
   "  x -> x * 2",
   "  (a, b) -> a + b",
   "",
   "    Example:",
   "      $\x7bitems.stream().filter(x -> x > 5).toList()\x7d"]

/-- Operators from the loosest to the tightest. -/
def operatorLines : List String :=
  ["OPERATORS - From Lowest to Highest Precedence",
   "",
   "TERNARY",
   "  cond ? a : b          Right-associative: a ? b : c ? d : e",
   "",
   "LAMBDA",
   "  x -> body",
   "",
   "LOGICAL",
   "  ||  or                Logical OR",
   "  &&  and               Logical AND",
   "",
   "EQUALITY",
   "  ==  eq                Equal",
   "  !=  ne                Not equal",
   "",
   "RELATIONAL",
   "  <   lt                Less than",
   "  >   gt                Greater than",
   "  <=  le                Less than or equal",
   "  >=  ge                Greater than or equal",
   "  instanceof            Type test",
   "",
   "CONCATENATION",
   "  +=                    String concatenation",
   "",
   "ARITHMETIC",
   "  +   -                 Addition, subtraction",
   "  *   /  div  %  mod    Multiplication, division, modulo",
   "",
   "UNARY",
   "  -                     Negation",
   "  !   not               Logical NOT",
   "  empty                 True for null, \"\", [] and \x7b\x7d",
   "",
   "POSTFIX",
   "  .name  [index]  (args)"]

/-- What is visible where. -/
def scopeLines : List String :=
  ["SCOPES - Variable Visibility",
   "",
   "An expression sees, from innermost to outermost:",
   "",
   "  1. Lambda parameters of the enclosing lambdas",
   "  2. result, inside the out: block of a task step",
   "  3. item and itemIndex, inside a step with loop: or withItems:",
   "  4. Variables set by earlier steps (set:, out:), walking outward through",
   "     enclosing then/else/try/error/block/parallel bodies",
   "  5. Input parameters from the flow's ## documentation comment",
   "  6. configuration.arguments",
   "  7. Built-in variables (see 'concord-el docs variables')",
   "",
   "Inner declarations shadow outer ones with the same name.",
   "",
   "SEQUENTIAL VISIBILITY",
   "  A variable set by a step is visible only in later steps, never in the",
   "  step itself or earlier ones.",
   "",
   "    Example:",
   "      - log: $\x7bx\x7d          # x is not visible yet",
   "      - set:",
   "          x: 1",
   "      - log: $\x7bx\x7d          # x is visible",
   "",
   "BRANCHES",
   "  Variables set inside then/else, try/error or switch cases of an earlier",
   "  step are visible afterwards. When several branches set the same variable,",
   "  its properties are the union of what each branch declares.",
   "",
   "DOTTED NAMES",
   "  set:",
   "    config.db.host: localhost",
   "  declares config with property db, which has property host."]

/-- How the inputs and outputs of a flow are documented. -/
def flowDocLines : List String :=
  ["FLOW DOCS - Documenting Flow Parameters",
   "",
   "A ## comment block right above a flow key declares its inputs and outputs:",
   "",
   "  flows:",
   "    ##",
   "    # Process S3 files",
   "    # in:",
   "    #   s3Bucket: string, mandatory, S3 bucket name",
   "    #   files: string[], optional, Files to process",
   "    #   config.region: string, optional, AWS region",
   "    # out:",
   "    #   processed: int, mandatory, Files processed count",
   "    ##",
   "    processS3:",
   "      - log: $\x7bs3Bucket\x7d",
   "",
   "PARAMETER LINES",
   "  name: type[, mandatory|optional][, description]",
   "",
   "TYPES",
   "  string  int  number  boolean  object  map  any  and arrays such as string[]",
   "",
   "  Input parameters are visible in every expression of the flow. Outputs type",
   "  the variables a call: step receives through out:."]

/-! ## 3. Pages about symbols -/

/-- Symbols under a title, one to a line. -/
def listing (title : String) (symbols : List Symbol) : List String :=
  [title, ""] ++ symbols.map fun s => "  " ++ s.summary

/-- All about a symbol: its type, its documentation, and its properties. -/
def description (s : Symbol) : List String :=
  [s.name ++ ": " ++ s.typeHint.name] ++
    (match s.documentation with
      | some doc => "" :: (Lines.contents doc.toList).map fun l => "  " ++ String.ofList l
      | none => []) ++
    (match s.shape with
      | some shape => ["", "PROPERTIES"] ++ shape.properties.map fun p => "  " ++ p.summary
      | none => [])

/-- The page of a topic. -/
def topicLines : Topic → List String
  | .expressions => expressionLines
  | .operators => operatorLines
  | .contextVariables => listing "BUILT-IN VARIABLES" Builtin.contextVariables
  | .functions => listing "BUILT-IN FUNCTIONS" Builtin.functions
  | .scopes => scopeLines
  | .flowDocs => flowDocLines

/-! ## 4. Pages by name -/

/-- The first page. -/
def overview : String := Text.unlines overviewLines

/-- The page of a name: a topic comes before a variable, and a variable before a function. -/
def page? (name : String) : Option String :=
  match Topic.ofName? name with
  | some topic => some (Text.unlines (topicLines topic))
  | none =>
    ((Builtin.findVariable? name).or (Builtin.findFunction? name)).map fun s =>
      Text.unlines (description s)

/-- Wording for a name without a page. -/
def unknownMessage (name : String) : String :=
  "Unknown documentation topic: '" ++ name ++ "'\nRun 'concord-el docs' to list topics."

end Manual

end FlowExpr
