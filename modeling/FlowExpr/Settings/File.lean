import FlowExpr.Json.Reader
import FlowExpr.Settings

/-!
# Settings files

A settings file is an object with a field for each switch to set. There can be two of them: a
general one, and one that belongs to the project and has the last word. A field that is no
switch is ignored.

* `Settings.toggle?`: the switch position that a value stands for;
* `Settings.ofFiles?`: the settings that the files give.
-/

namespace FlowExpr.Settings

/-! ## 1. Switch positions -/

/-- The position that a word stands for. Only ASCII letters can lower to a letter of these. -/
def wordToggle? (word : String) : Option Bool :=
  match String.ofList (Text.lower word.toList) with
  | "1" | "true" | "on" | "yes" => some true
  | "0" | "false" | "off" | "no" => some false
  | _ => none

/-- The position that a value stands for. A number is on unless it is zero. -/
def toggle? : Json → Option Bool
  | .bool b => some b
  | .number mantissa exponent => some !(Json.roundsToZero mantissa.natAbs exponent)
  | .text word => wordToggle? word
  | .null | .list _ | .object _ => none

/-! ## 2. Fields

A key is a name, or a path: a name followed by names after dots and numbers in brackets. A path
leads inside the field of its first name, which then holds no position of a switch. -/

/-- Where in a path a character stands. Of a number that is being read, its sign and its value
    so far are known. -/
inductive PathState where
  | name | afterDot | afterBracket | afterMinus
  | number (negative : Bool) (value : Nat)
  | afterNumber | afterIndex
  deriving DecidableEq, Repr

/-- Characters of names in paths. -/
def isNameChar (c : Char) : Bool :=
  Text.isAsciiLetter c || Text.isDigit c || c = '_' || c = '-' || c = ' '

/-- Blanks beside the number in brackets. -/
def isIndexBlank (c : Char) : Bool := c = ' ' || c = '\t'

/-- The number in brackets has 64 bits in two's complement. -/
def isIndex (negative : Bool) (value : Nat) : Bool :=
  value < 0x8000000000000000 || (negative && value = 0x8000000000000000)

/-- The rest of a path is well formed. -/
def isPathFrom : PathState → List Char → Bool
  | state, [] => state = .name || state = .afterIndex
  | .name, c :: cs =>
    if c = '.' then isPathFrom .afterDot cs
    else if c = '[' then isPathFrom .afterBracket cs
    else isNameChar c && isPathFrom .name cs
  | .afterDot, c :: cs => isNameChar c && isPathFrom .name cs
  | .afterBracket, c :: cs =>
    if c = '-' then isPathFrom .afterMinus cs
    else if isIndexBlank c then isPathFrom .afterBracket cs
    else Text.isDigit c && isPathFrom (.number false (Numeral.digitValue c)) cs
  | .afterMinus, c :: cs =>
    Text.isDigit c && isPathFrom (.number true (Numeral.digitValue c)) cs
  | .number negative value, c :: cs =>
    if Text.isDigit c then isPathFrom (.number negative (value * 10 + Numeral.digitValue c)) cs
    else isIndex negative value &&
      if c = ']' then isPathFrom .afterIndex cs else isIndexBlank c && isPathFrom .afterNumber cs
  | .afterNumber, c :: cs =>
    if c = ']' then isPathFrom .afterIndex cs else isIndexBlank c && isPathFrom .afterNumber cs
  | .afterIndex, c :: cs =>
    if c = '.' then isPathFrom .afterDot cs else c = '[' && isPathFrom .afterBracket cs

/-- The field that a key sets, and what it then holds. The case of a key does not count. -/
def entryOf (entry : String × Json) : String × Json :=
  let key := Text.lower entry.1.toList
  let root := key.takeWhile isNameChar
  if root ≠ [] ∧ root ≠ key ∧ isPathFrom .name key then (String.ofList root, .list [])
  else (String.ofList key, entry.2)

/-- An object without fields; it changes nothing where it is set. -/
def isEmptyObject : Json → Bool
  | .object [] => true
  | _ => false

/-- What a field holds in the end: the last value that is set. -/
def last? (name : String) (entries : List (String × Json)) : Option Json :=
  (entries.reverse.find? fun e => e.1 == name && !isEmptyObject e.2).map Prod.snd

/-! ## 3. Files -/

/-- The fields of a settings file. A byte order mark at its beginning does not count. -/
def fileEntries? (text : String) : Option (List (String × Json)) :=
  let cs := match text.toList with
    | c :: rest => if c.toNat = 0xFEFF then rest else c :: rest
    | [] => []
  match Json.read? cs with
  | some (.object fields) => some (fields.map entryOf)
  | _ => none

/-- The position of a switch; it is on where no file sets it. -/
def switch? (entries : List (String × Json)) (name : String) : Option Bool :=
  match last? name entries with
  | some value => toggle? value
  | none => some true

/-- The settings of the general file and of the project's file, either of which can be missing.
    There are none if a file cannot be read or a switch has no position. -/
def ofFiles? (general project : Option String) : Option Settings := do
  let first ← (general.map fileEntries?).getD (some [])
  let second ← (project.map fileEntries?).getD (some [])
  let entries := first ++ second
  return {
    branchDeclarations := ← switch? entries "branch_declarations"
    builtinFunctions := ← switch? entries "builtin_functions"
    includeArguments := ← switch? entries "include_arguments"
    unresolvedDiagnostics := ← switch? entries "unresolved_diagnostics" }

end FlowExpr.Settings
