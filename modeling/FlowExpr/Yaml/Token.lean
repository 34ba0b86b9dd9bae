import FlowExpr.Yaml.Cursor

/-!
# Tokens of a document

The signs that structure a document, the marks that begin and end its collections, and its
scalars. The marks of block collections are not written; they follow from the indentation.
-/

namespace FlowExpr.Yaml

/-- What a token of a document is. -/
inductive TokenKind where
  | streamEnd
  | versionDirective
  | tagDirective (handle : String)
  | documentStart
  | documentEnd
  | blockSequenceStart
  | blockMappingStart
  | blockEnd
  | flowSequenceStart
  | flowSequenceEnd
  | flowMappingStart
  | flowMappingEnd
  | blockEntry
  | flowEntry
  | key
  | value
  | alias (name : String)
  | anchor (name : String)
  | tag (handle : String)
  | scalar (text : String)
  deriving DecidableEq, Repr

/-- A token and its place. -/
structure Token where
  kind : TokenKind
  mark : Mark
  deriving DecidableEq, Repr

end FlowExpr.Yaml
