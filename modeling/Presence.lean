import Presence.Block.Builder
import Presence.Block.Report
import Presence.CommandLine.Run
import Presence.Condition
import Presence.Extraction
import Presence.Main
import Presence.Options.Settings
import Presence.Statistics
import Presence.Proofs.Block.Focus
import Presence.Proofs.Source.LineNumber
import Presence.Proofs.Nesting.Language
import Presence.Proofs.Nesting.Acceptance
import Presence.Proofs.Block.Range
import Presence.Proofs.Block.Innermost
import Presence.Proofs.Block.Inclusion
import Presence.Proofs.Block.Chain
import Presence.Proofs.Expr.Derivation
import Presence.Proofs.Expr.Soundness
import Presence.Proofs.Expr.Refusal
import Presence.Proofs.Expr.Completeness
import Presence.Proofs.Expr.Recognition
import Presence.Proofs.Block.Siblings
import Presence.Proofs.Condition.Fragment
import Presence.Proofs.Condition.Truth
import Presence.Proofs.Expr.Fault
import Presence.Proofs.Token.Composition
import Presence.Proofs.Formula.Rendering
import Presence.Proofs.Formula.Mirror
import Presence.Proofs.Formula.Unambiguous
import Presence.Proofs.Block.Outline
import Presence.Proofs.Block.Testing
import Presence.Proofs.Block.Substitution
import Presence.Proofs.Condition.Handling
import Presence.Proofs.Block.Handling
import Presence.Proofs.Block.Enclosing
import Presence.Proofs.Block.Traversal
import Presence.Proofs.Block.Procedure
import Presence.Proofs.Source.Concatenation
import Presence.Proofs.Block.Concatenation
import Presence.Proofs.Block.Resumption
import Presence.Proofs.Block.Naming
import Presence.Proofs.Condition.Recovery
import Presence.Proofs.Source.LineEnding
import Presence.Proofs.Text.Utf8
import Presence.Proofs.Extraction
import Presence.Proofs.CommandLine.Independence
import Presence.Proofs.Source.CommentScan
import Presence.Proofs.Source.Grouping
import Presence.Proofs.Source.Spacing
import Presence.Proofs.Source.CommentFree
import Presence.Proofs.Block.Opening
import Presence.Proofs.Block.BareName
import Presence.Proofs.Block.WholeFile
import Presence.Proofs.Source.Continuation
import Presence.Proofs.Token.Segmentation
import Presence.Proofs.Expr.Locality
import Presence.Proofs.Expr.Viability
import Presence.Proofs.Expr.FirstOffence
import Presence.Proofs.Statistics
import Presence.Proofs.Block.Modes
import Presence.Proofs.Condition.NumberTest
import Presence.Proofs.Expr.Respelling
import Presence.Proofs.Block.Reconstruction
import Presence.Proofs.Options.Settings
import Presence.Proofs.CommandLine.Layering
import Presence.Proofs.Token.IntegerValue
import Presence.Proofs.Condition.Spacing
