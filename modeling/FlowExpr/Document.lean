import FlowExpr.Embedded
import FlowExpr.Outline.Load

/-!
# Documents

A document is a text with its lines, its outline and its embedded expressions. A text whose
structure cannot be read is a document too: it has expressions but no outline, and the reason
is kept.
-/

namespace FlowExpr

/-- A text and what is known of it. -/
structure Document where
  text : List Char
  lines : Lines
  outline : Outline
  expressions : List Embedded
  loadError : Option Yaml.LoadError
  deriving Repr

/-- Wording of a reason why a document cannot be read. -/
def Yaml.LoadError.report (e : Yaml.LoadError) : String := "invalid YAML: " ++ e.message

namespace Document

/-- Structure of a text. A text of blanks only has none. -/
def structureOf (text : List Char) : Except Yaml.LoadError (Option Yaml.Node) :=
  if text.all Text.isBlank then .ok none else (Yaml.load text).map some

/-- The document of a text, given the structure that was loaded from it or the reason why none
    could be. -/
def ofStructure (text : List Char) (loaded : Except Yaml.LoadError (Option Yaml.Node)) :
    Document :=
  let lines := Lines.ofText text
  { text, lines
    outline := match loaded with
      | .ok (some root) => Outline.ofNode lines (Text.byteLength text) root
      | .ok none | .error _ => {}
    expressions := embedded text
    loadError := match loaded with
      | .ok _ => none
      | .error e => some e }

/-- The document of a text. -/
def ofText (text : List Char) : Document := ofStructure text (structureOf text)

/-- Number of bytes. -/
def size (d : Document) : Nat := Text.byteLength d.text

/-- Line and column of an offset. -/
def position (d : Document) (offset : Nat) : Nat × Nat := d.lines.position offset

/-- Flows of the document. -/
def flows (d : Document) : List Flow := d.outline.flows

/-- Arguments of the process. -/
def arguments (d : Document) : List Symbol := d.outline.arguments

/-- A flow by its name. -/
def flow? (d : Document) (name : String) : Option Flow :=
  d.flows.find? fun f => f.name == name

/-- The flow around an offset; the end of the last flow belongs to it. -/
def flowAt? (d : Document) (offset : Nat) : Option Flow :=
  (d.flows.find? fun f => f.span.contains offset).or
    (d.flows.getLast?.filter fun f => f.span.stop == offset)

/-- Every symbol that the document declares: arguments, then by flow the parameters and the
    declarations of steps. -/
def declarations (d : Document) : List Symbol :=
  d.arguments ++ d.flows.flatMap fun f => f.parameters ++ Step.stepDeclarations f.steps

end Document

end FlowExpr
