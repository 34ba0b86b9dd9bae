import FlowExpr.Command.Run

/-!
# The program

Reads what a command needs, runs the command, and writes its output.
-/

namespace FlowExpr.Main

/-- Everything up to the end of a stream. -/
partial def readAll (stream : IO.FS.Stream) (before : ByteArray) : IO ByteArray := do
  let part ← stream.read 65536
  if part.isEmpty then return before else readAll stream (before ++ part)

/-- A document from the standard input. -/
def readInput : IO (Except ReadFailure String) := do
  let stream ← IO.getStdin
  if ← stream.isTty then return .error .noInput
  match String.fromUTF8? (← readAll stream ByteArray.empty) with
  | some text => return .ok text
  | none => return .error .notText

/-- Why a file cannot be read. -/
def failureOf : IO.Error → ReadFailure
  | .noFileOrDirectory .. => .notFound
  | .inappropriateType _ 21 _ => .isDirectory
  | .inappropriateType .. => .notADirectory
  | e => .other (toString e)

/-- A document from a file. -/
def readDocument (path : String) : IO (Except ReadFailure String) := do
  try
    match String.fromUTF8? (← IO.FS.readBinFile path) with
    | some text => return .ok text
    | none => return .error .notText
  catch e => return .error (failureOf e)

/-- A file that may be missing. -/
def readOptional (path : String) : IO (Option String) := do
  try return some (← IO.FS.readFile path) catch _ => return none

/-- What a command reads. -/
def readInputs : Option DocumentSource → IO Inputs
  | none => return {}
  | some source => do
    let document ← match source with
      | .standardInput => readInput
      | .file path => readDocument path
    let home := (← IO.getEnv "HOME").getD "~"
    let directory := Command.settingsDirectory source
    return {
      document
      generalSettings := ← readOptional (home ++ "/.config/concord-el/settings.json")
      projectSettings := ← readOptional (directory ++ "/.concord-el.json") }

/-- The outcome of a row of arguments. -/
def outcome (args : List String) : IO Outcome := do
  match Command.ofArguments? args with
  | none => return .usage
  | some command => return .ofResult (command.run (← readInputs command.source?))

end FlowExpr.Main

/-- Runs the command that the arguments give. -/
def main (args : List String) : IO UInt32 := do
  let result ← FlowExpr.Main.outcome args
  (← IO.getStdout).putStr result.out
  (← IO.getStderr).putStr result.err
  return result.code.toUInt32
