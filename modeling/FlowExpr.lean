import FlowExpr.Main
import FlowExpr.Proofs.Expr.PositionMaps
import FlowExpr.Proofs.Yaml.Embedding
import FlowExpr.Proofs.Span
import FlowExpr.Proofs.Yaml.Scalars
import FlowExpr.Proofs.Yaml.Decoding
import FlowExpr.Proofs.Yaml.Regions
import FlowExpr.Proofs.Token.Order
import FlowExpr.Proofs.Token.Tiling
import FlowExpr.Proofs.Scope.References
import FlowExpr.Proofs.Expr.Layout
import FlowExpr.Proofs.Expr.Placement
import FlowExpr.Proofs.Analysis.Positions
import FlowExpr.Proofs.Analysis.Navigation
import FlowExpr.Proofs.Scope.Earlier
import FlowExpr.Proofs.Scope.Visibility
import FlowExpr.Proofs.Expr.Ranges
import FlowExpr.Proofs.Scope.Completion
import FlowExpr.Proofs.Scope.Locating
import FlowExpr.Proofs.Expr.Height
import FlowExpr.Proofs.Expr.Containment
import FlowExpr.Proofs.Analysis.Spelling
import FlowExpr.Proofs.Analysis.Usages
import FlowExpr.Proofs.Expr.Members
import FlowExpr.Proofs.Yaml.Entry
import FlowExpr.Proofs.Yaml.Quoting
import FlowExpr.Proofs.Scope.Alternatives
import FlowExpr.Proofs.Scope.Branches
import FlowExpr.Proofs.Scope.LastWrite
import FlowExpr.Proofs.Scope.Lambdas
import FlowExpr.Proofs.Text.Lines
import FlowExpr.Proofs.Cursor
import FlowExpr.Proofs.Symbol.Paths
import FlowExpr.Proofs.Symbol.DottedEntries
import FlowExpr.Proofs.FlowDoc.Blocks
import FlowExpr.Proofs.FlowDoc.Places
import FlowExpr.Proofs.Outline.Ranges
import FlowExpr.Proofs.Outline.Nesting
import FlowExpr.Proofs.FlowDoc.RoundTrip
import FlowExpr.Proofs.Expr.Placeholders
import FlowExpr.Proofs.Expr.Recovery
import FlowExpr.Proofs.Expr.Discipline
import FlowExpr.Proofs.Expr.Trailing
import FlowExpr.Proofs.Token.Lexemes
import FlowExpr.Proofs.Yaml.OffsetMap
