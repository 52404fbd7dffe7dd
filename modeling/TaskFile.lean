import TaskFile.Tree.Path
import TaskFile.Tree.Outline
import TaskFile.Tree.Inspect
import TaskFile.Main
import TaskFile.Proofs.Number.Numeral
import TaskFile.Proofs.Token.Lexeme
import TaskFile.Proofs.Token.Stream
import TaskFile.Proofs.Document.Grammar
import TaskFile.Proofs.Document.Move
import TaskFile.Proofs.Document.Acceptance
import TaskFile.Proofs.Document.Nesting
import TaskFile.Proofs.Tree.Arena
import TaskFile.Proofs.Completion.Placement
import TaskFile.Proofs.Document.Decoding
import TaskFile.Proofs.Document.Options
import TaskFile.Proofs.Text.Place
import TaskFile.Proofs.Token.Place
import TaskFile.Proofs.Document.Continuation
import TaskFile.Proofs.Token.Continuation
import TaskFile.Proofs.Completion.Continuation
import TaskFile.Proofs.Workspace.Run
import TaskFile.Proofs.Workspace.Coherence
import TaskFile.Proofs.Document.Report
import TaskFile.Proofs.Workspace.Range
import TaskFile.Proofs.Text.LineEnd
import TaskFile.Proofs.Token.LineEnd
import TaskFile.Proofs.Document.Alignment
import TaskFile.Proofs.Workspace.LineEnd
import TaskFile.Proofs.Tree.Offset
import TaskFile.Proofs.Token.Skeleton
import TaskFile.Proofs.Document.Skeleton
import TaskFile.Proofs.Text.Literal
import TaskFile.Proofs.Token.Literal
import TaskFile.Proofs.Document.Schema
import TaskFile.Proofs.Token.Insertion
import TaskFile.Proofs.Document.Quiet
import TaskFile.Proofs.Document.Growth
import TaskFile.Proofs.Document.Embedding
import TaskFile.Proofs.Document.Insertion
import TaskFile.Proofs.Completion.Insertion
import TaskFile.Proofs.Document.Extent
import TaskFile.Proofs.Token.Malformed
import TaskFile.Proofs.Workspace.Isolation
import TaskFile.Proofs.Workspace.Interleaving
import TaskFile.Proofs.Tree.Path
import TaskFile.Proofs.Document.Bracket
import TaskFile.Proofs.Document.Tolerance
import TaskFile.Proofs.Token.Printed
import TaskFile.Proofs.Document.Scan
import TaskFile.Proofs.Document.Separation
import TaskFile.Proofs.Document.Unclosed
import TaskFile.Proofs.Document.Stop
import TaskFile.Proofs.Number.Grammar
import TaskFile.Proofs.Document.Number
import TaskFile.Proofs.Text.Boundary
import TaskFile.Proofs.Text.Order
import TaskFile.Proofs.Text.Line
import TaskFile.Proofs.Token.Grammar
import TaskFile.Proofs.Completion.Key
import TaskFile.Proofs.Tree.Ancestry
import TaskFile.Proofs.Token.Line
import TaskFile.Proofs.Tree.Outline
import TaskFile.Proofs.Workspace.Filter
import TaskFile.Proofs.Document.Size
import TaskFile.Proofs.Document.Progress
import TaskFile.Proofs.Workspace.Config
