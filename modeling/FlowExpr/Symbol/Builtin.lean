import FlowExpr.Symbol.Basic

/-!
# What the runtime provides

Variables and functions that every process has, the variables of a loop, and the result of a
task call.
-/

namespace FlowExpr.Builtin

/-- Property or variable provided by the runtime. -/
def provided (name : String) (typeHint : TypeHint) (documentation : String) : Symbol :=
  ⟨name, .builtin, typeHint, .builtin, some documentation, none⟩

/-- Object provided by the runtime. -/
def object (name documentation : String) (properties : List Symbol) : Symbol :=
  { provided name .object documentation with shape := some (Shape.ofSymbols properties) }

/-! ## 1. Variables -/

/-- Properties of a user. -/
def userProperties : List Symbol :=
  [provided "username" .string "Login name",
   provided "displayName" .string "Display name",
   provided "email" .string "Email address",
   provided "groups" .collection "Groups the user belongs to",
   provided "attributes" .map "Additional user attributes"]

/-- Properties of the process context. -/
def contextProperties : List Symbol :=
  [provided "variables" .object "Process variables",
   provided "workingDirectory" .string "Working directory of the process",
   provided "processInstanceId" .string "ID of the current process instance",
   provided "defaultVariables" .object "Default variables of the process",
   provided "processConfiguration" .object "Effective process configuration",
   provided "currentFlowName" .string "Name of the flow being executed",
   provided "eval" .unknown "Evaluates an expression: eval(expression, type)",
   provided "getVariable" .unknown "Returns a variable value: getVariable(name)",
   provided "setVariable" .unknown "Sets a variable: setVariable(name, value)",
   provided "suspend" .unknown "Suspends the process until an event: suspend(eventName)"]

/-- Properties of the project. -/
def projectProperties : List Symbol :=
  [provided "orgId" .string "Organization ID",
   provided "orgName" .string "Organization name",
   provided "projectId" .string "Project ID",
   provided "projectName" .string "Project name",
   provided "repoId" .string "Repository ID",
   provided "repoName" .string "Repository name",
   provided "repoUrl" .string "Repository URL",
   provided "repoBranch" .string "Repository branch",
   provided "repoPath" .string "Path inside the repository",
   provided "repoCommitId" .string "Commit ID",
   provided "repoCommitAuthor" .string "Commit author",
   provided "repoCommitMessage" .string "Commit message"]

/-- Properties of the running process. -/
def processProperties : List Symbol :=
  [provided "activeProfiles" .collection "Profiles the process runs with",
   provided "sessionToken" .string "Session token of the process"]

/-- Properties of the process log. -/
def logProperties : List Symbol :=
  [provided "info" .unknown "Logs a message at INFO level",
   provided "warn" .unknown "Logs a message at WARN level",
   provided "error" .unknown "Logs a message at ERROR level",
   provided "debug" .unknown "Logs a message at DEBUG level"]

/-- Variables of every process. -/
def contextVariables : List Symbol :=
  [provided "txId" .string "Unique identifier of the current process instance",
   provided "parentInstanceId" .string "Identifier of the parent process instance, if any",
   provided "workDir" .string "Absolute path to the process working directory",
   object "initiator" "User who started the process" userProperties,
   object "currentUser" "User who triggered the current part of the process" userProperties,
   provided "requestInfo" .object "Parameters of the request that started the process",
   object "projectInfo" "Project and repository the process belongs to" projectProperties,
   object "processInfo" "Information about the running process" processProperties,
   object "context" "Process context" contextProperties,
   object "execution" "Process context (legacy name)" contextProperties,
   provided "tasks" .object "Registry of available tasks",
   object "log" "Process log" logProperties]

/-- Variables of every step that loops. -/
def loopVariables : List Symbol :=
  [{ provided "item" .unknown "Current element of the loop" with origin := .loop },
   { provided "itemIndex" .int "Index of the current element, starting at 0" with
     origin := .loop }]

/-- The result of a task call, visible where its outcome is stored. -/
def taskResult : Symbol :=
  { object "result" "Result of the task call"
      [provided "ok" .boolean "Whether the task succeeded",
       provided "error" .string "Error message when the task failed"] with
    origin := .taskResult }

/-! ## 2. Functions -/

/-- Function that can be called without a target. -/
structure Function where
  name : String
  params : List (String × String)
  returns : TypeHint
  description : String

/-- Name, parameters and result type in one line. -/
def Function.signature (f : Function) : String :=
  f.name ++ "(" ++ ", ".intercalate (f.params.map fun p => p.1 ++ ": " ++ p.2) ++ "): " ++
    f.returns.name

/-- The symbol of a function; its documentation begins with the signature. -/
def Function.symbol (f : Function) : Symbol :=
  { provided f.name f.returns (f.signature ++ "\n\n" ++ f.description) with
    origin := .builtinFunction }

/-- All functions with their signatures. -/
def functionTable : List Function :=
  [⟨"allVariables", [], .object, "Returns all process variables as a map"⟩,
   ⟨"hasVariable", [("variableName", "string")], .boolean,
    "Checks whether a variable is defined"⟩,
   ⟨"hasNonNullVariable", [("variableName", "string")], .boolean,
    "Checks whether a variable is defined and not null"⟩,
   ⟨"currentFlowName", [], .string, "Returns the name of the flow being executed"⟩,
   ⟨"evalAsMap", [("value", "any")], .object,
    "Evaluates every expression in the value and returns the result as a map"⟩,
   ⟨"hasFlow", [("name", "string")], .boolean,
    "Checks whether a flow with the given name exists"⟩,
   ⟨"isDebug", [], .boolean, "Returns true when the process runs in debug mode"⟩,
   ⟨"isDryRun", [], .boolean, "Returns true when the process runs in dry-run mode"⟩,
   ⟨"orDefault", [("name", "string"), ("defaultValue", "any")], .unknown,
    "Returns the variable value, or the default when it is undefined"⟩,
   ⟨"throw", [("message", "string")], .unknown, "Fails the process with the given message"⟩,
   ⟨"uuid", [], .string, "Generates a random UUID"⟩]

/-- Functions of every process. -/
def functions : List Symbol := functionTable.map Function.symbol

/-- A variable by its name. -/
def findVariable? (name : String) : Option Symbol := Declared.find? contextVariables name

/-- A function by its name. -/
def findFunction? (name : String) : Option Symbol := Declared.find? functions name

end FlowExpr.Builtin
