import FlowExpr.Command.Basic
import FlowExpr.Cursor
import FlowExpr.Manual
import FlowExpr.Settings.File

/-!
# Running a command

A command is a function of what it reads: the document and the settings files. What it reads is
told by `Command.source?` and `Command.settingsDirectory`; reading itself is not done here.

* `Command.run`: the output of a command, or why it fails;
* `Outcome`: exit code and output of the whole program.
-/

namespace FlowExpr

/-! ## 1. What a command reads -/

/-- Where a document comes from. -/
inductive DocumentSource where
  | standardInput
  | file (path : String)
  deriving DecidableEq, Repr

/-- Why a document cannot be read. -/
inductive ReadFailure where
  | notFound
  | notADirectory
  | isDirectory
  | notText
  | noInput
  | other (reason : String)
  deriving DecidableEq, Repr

/-- Wording of a failure to read. -/
def ReadFailure.message : ReadFailure → String
  | notFound => "IO error: No such file or directory (os error 2)"
  | notADirectory => "IO error: Not a directory (os error 20)"
  | isDirectory => "IO error: Is a directory (os error 21)"
  | notText => "IO error: stream did not contain valid UTF-8"
  | noInput => "No input provided. Pass a file or pipe a document to stdin."
  | other reason => "IO error: " ++ reason

/-- What a command reads. -/
structure Inputs where
  document : Except ReadFailure String := .error .noInput
  generalSettings : Option String := none
  projectSettings : Option String := none

namespace Command

/-- Where the document of a command comes from, if it needs one. -/
def source? : Command → Option DocumentSource
  | checkDocument file _ _ | query _ _ file _ =>
    some ((file.map DocumentSource.file).getD .standardInput)
  | checkExpression .. | tokens .. | docs _ => none

/-- The text before the last slash that is not at its end. -/
def parentDirectory (path : List Char) : List Char :=
  let isSlash (c : Char) : Bool := c = '/'
  let parent := ((path.reverse.dropWhile isSlash).dropWhile fun c => !isSlash c).dropWhile isSlash
  if parent = [] ∧ path.head? = some '/' then ['/'] else parent.reverse

/-- The directory with the settings of the project: the one of the document, or the working
    directory. -/
def settingsDirectory : DocumentSource → String
  | .standardInput => "."
  | .file path =>
    match parentDirectory path.toList with
    | [] => "."
    | parent => String.ofList parent

end Command

/-! ## 2. Results -/

/-- Why a command fails. -/
inductive CommandFailure where
  | read (failure : ReadFailure)
  | settings
  | cursor (text : String)
  | analysis (failure : Analysis.Failure)
  | topic (name : String)
  deriving DecidableEq, Repr

/-- Wording of a failure. -/
def CommandFailure.message : CommandFailure → String
  | read failure => failure.message
  | settings => "failed to load settings: a settings file is not valid"
  | cursor text => Cursor.invalidMessage text
  | analysis failure => failure.message
  | topic name => Manual.unknownMessage name

/-- An answer of the analysis as a result of a command. -/
def CommandFailure.ofAnalysis {α : Type} :
    Except Analysis.Failure α → Except CommandFailure α
  | .ok a => .ok a
  | .error e => .error (.analysis e)

namespace Command

/-- The document under the settings of its files. A document that cannot be read is reported
    before settings that are not valid. -/
def analysis (inputs : Inputs) : Except CommandFailure Analysis := do
  match inputs.document with
  | .error e => throw (.read e)
  | .ok text =>
    match Settings.ofFiles? inputs.generalSettings inputs.projectSettings with
    | none => throw .settings
    | some settings => return { document := Document.ofText text.toList, settings }

/-- A structured value as output. -/
def jsonOutput (pretty : Bool) (value : Json) : String := value.write pretty ++ "\n"

/-- Name of a document in reports. -/
def reportName (file : Option String) : String := file.getD "<stdin>"

/-- Findings for a reader. -/
def findingLines (file : Option String) (findings : List Finding) : List String :=
  if findings.isEmpty then ["No problems found"]
  else findings.map fun f => f.report (reportName file)

/-- The output of a command. -/
def run (inputs : Inputs) : Command → Except CommandFailure String
  | checkDocument file json pretty => do
    let found ← CommandFailure.ofAnalysis (← analysis inputs).findings
    return if json then jsonOutput pretty (.list (found.map Finding.json))
      else Text.unlines (findingLines file found)
  | checkExpression source json pretty =>
    let report := ExpressionReport.ofSource source
    .ok (if json then jsonOutput pretty report.json else Text.unlines report.lines)
  | query question cursor _ pretty => do
    let a ← analysis inputs
    match a.document.cursor? cursor with
    | none => throw (.cursor cursor)
    | some offset =>
      return jsonOutput pretty (← CommandFailure.ofAnalysis (question.answer a offset))
  | tokens source pretty => .ok (jsonOutput pretty (tokenListing (sourceTokens source)))
  | docs none => .ok Manual.overview
  | docs (some name) =>
    match Manual.page? name with
    | some page => .ok page
    | none => .error (.topic name)

end Command

/-! ## 3. The whole program -/

/-- Exit code, output, and error output. -/
structure Outcome where
  code : Nat
  out : String
  err : String
  deriving DecidableEq, Repr

/-- The result of a command as seen from outside. -/
def Outcome.ofResult : Except CommandFailure String → Outcome
  | .ok out => ⟨0, out, ""⟩
  | .error e => ⟨1, "", e.message ++ "\n"⟩

/-- Arguments that are no command. -/
def Outcome.usage : Outcome := ⟨2, "", "error: these arguments are no command\n"⟩

end FlowExpr
