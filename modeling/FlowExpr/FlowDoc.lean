import FlowExpr.Symbol.Declare
import FlowExpr.Text.Lines

/-!
# Flow documentation

A flow can be documented by comment lines right above its key, between two lines `##`. The
lines hold a description, then sections `in:` and `out:` with one parameter to a line:
name, type, and after commas whether it is required and a description.

* `FlowDoc.above?`: the documentation that ends above a line;
* `FlowParam.read?`: one parameter line;
* `FlowDoc.inputSymbols`, `FlowDoc.outputSymbols`: the parameters as symbols.
-/

namespace FlowExpr

/-- A documented parameter. Its name may be dotted. -/
structure FlowParam where
  name : String
  nameSpan : Span
  typeName : String
  mandatory : Bool
  description : String
  deriving DecidableEq, Repr

/-- Documentation of a flow; the range runs from the first `##` to the last. -/
structure FlowDoc where
  description : String
  inputs : List FlowParam
  outputs : List FlowParam
  span : Span
  deriving DecidableEq, Repr

/-! ## 1. Parameter lines -/

namespace FlowParam

/-- First character of a name segment. -/
def isSegmentStart (c : Char) : Bool := Text.isAsciiLetter c || c == '_' || c == '$'

/-- Later character of a name segment. -/
def isSegmentPart (c : Char) : Bool := Text.isWord c || c == '$'

/-- Length of the longest dotted name that begins a text. The flag says whether a segment is
    open; a dot belongs to the name only where another segment follows. -/
def nameLength : Bool → List Char → Nat
  | _, [] => 0
  | false, c :: cs => if isSegmentStart c then nameLength true cs + 1 else 0
  | true, c :: cs =>
    if isSegmentPart c then nameLength true cs + 1
    else if c = '.' then
      match nameLength false cs with
      | 0 => 0
      | n + 1 => n + 2
    else 0

/-- What follows the type of a parameter, after the first comma. -/
structure Tail where
  requirement : List Char
  description : List Char

/-- A word that ends the text or is followed by a comma is the requirement, and what follows
    that comma the description; anything else is all description. -/
def readTail (cs : List Char) : Tail :=
  let text := Text.trimLeft cs
  let word := text.takeWhile Text.isAsciiLetter
  let afterWord := Text.trimLeft (text.drop word.length)
  if word.isEmpty then ⟨[], Text.trim cs⟩
  else
    match afterWord with
    | [] => ⟨word, []⟩
    | ',' :: rest => ⟨word, Text.trim rest⟩
    | _ => ⟨[], Text.trim cs⟩

/-- Type, requirement and description after the colon. -/
def readDetails (cs : List Char) : List Char × Tail :=
  let typeName := cs.takeWhile (· ≠ ',')
  (Text.trim typeName,
    match cs.drop typeName.length with
    | ',' :: rest => readTail rest
    | _ => ⟨[], []⟩)

/-- Words that make a parameter mandatory. -/
def isMandatory (requirement : List Char) : Bool :=
  ["mandatory", "required"].contains (String.ofList (Text.lower requirement))

/-- A parameter line, without its comment sign, that begins at an offset. -/
def read? (offset : Nat) (cs : List Char) : Option FlowParam :=
  let text := Text.trimLeft cs
  let name := text.take (nameLength false text)
  if name.isEmpty then none
  else
    match Text.trimLeft (text.drop name.length) with
    | ':' :: rest =>
      let (typeName, tail) := readDetails rest
      let start := offset + (Text.byteLength cs - Text.byteLength text)
      some ⟨String.ofList name, ⟨start, start + Text.byteLength name⟩, String.ofList typeName,
        isMandatory tail.requirement, String.ofList tail.description⟩
    | _ => none

/-- The symbol of a parameter. Its documentation gives type, requirement and description. -/
def symbol (p : FlowParam) (origin : Origin) : Symbol :=
  let requirement := if p.mandatory then "mandatory" else "optional"
  let documentation := p.typeName ++ " (" ++ requirement ++ ")" ++
    (if p.description.isEmpty then "" else ": " ++ p.description)
  ⟨p.name, .document p.nameSpan, TypeHint.ofTypeName p.typeName.toList, origin,
    some documentation, none⟩

/-- Parameters as symbols, dotted names folded into objects. -/
def symbols (origin : Origin) (params : List FlowParam) : List Symbol :=
  params.foldl (fun found p => Declared.declarePath found p.name (p.symbol origin)) []

end FlowParam

/-! ## 2. The block above a key -/

namespace FlowDoc

/-- The line is a delimiter of a documentation block. -/
def isDelimiter (line : List Char) : Bool := Text.trim line == ['#', '#']

/-- The line is a comment inside a documentation block. -/
def isInner (line : List Char) : Bool :=
  (Text.trim line).head? == some '#' && !isDelimiter line

/-- Sections of a documentation block. -/
inductive Section where
  | description | inputs | outputs
  deriving DecidableEq, Repr

/-- What has been read of a block: the current section, the lines of the description, and the
    parameters. -/
structure Progress where
  current : Section := .description
  description : List String := []
  inputs : List FlowParam := []
  outputs : List FlowParam := []

/-- Read one more line, which begins at an offset. A line of a parameter section that is no
    parameter is passed over. -/
def Progress.line (p : Progress) (start : Nat) (line : List Char) : Progress :=
  let front := line.takeWhile (· ≠ '#')
  let body := line.drop (front.length + 1)
  let offset := start + Text.byteLength front + 1
  let content := String.ofList (Text.trim body)
  if content = "in:" then { p with current := .inputs }
  else if content = "out:" then { p with current := .outputs }
  else if content.isEmpty then p
  else
    match p.current, FlowParam.read? offset body with
    | .description, _ => { p with description := p.description ++ [content] }
    | .inputs, some param => { p with inputs := p.inputs ++ [param] }
    | .outputs, some param => { p with outputs := p.outputs ++ [param] }
    | _, none => p

/-- A documentation block from its delimiters and inner lines, each with its offset. -/
def ofLines (opening closing : Nat × List Char) (inner : List (Nat × List Char)) : FlowDoc :=
  let start : Progress := {}
  let read := inner.foldl (fun p entry => p.line entry.1 entry.2) start
  ⟨"\n".intercalate read.description, read.inputs, read.outputs,
    ⟨opening.1, closing.1 + Text.byteLength closing.2⟩⟩

/-- The documentation block right above a line. -/
def above? (lines : Lines) (keyLine : Nat) : Option FlowDoc :=
  if keyLine ≤ lines.count + 1 then
    match (lines.withStarts.take (keyLine - 1)).reverse with
    | [] => none
    | closing :: rest =>
      if isDelimiter closing.2 then
        let inner := rest.takeWhile fun entry => isInner entry.2
        match rest.drop inner.length with
        | opening :: _ =>
          if isDelimiter opening.2 then some (ofLines opening closing inner.reverse) else none
        | [] => none
      else none
  else none

/-- Inputs as symbols. -/
def inputSymbols (doc : FlowDoc) : List Symbol := FlowParam.symbols .flowParameter doc.inputs

/-- Outputs as symbols. -/
def outputSymbols (doc : FlowDoc) : List Symbol := FlowParam.symbols .stepOut doc.outputs

end FlowDoc

end FlowExpr
