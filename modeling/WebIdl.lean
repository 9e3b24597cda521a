import WebIdl.Main
import WebIdl.Session
import WebIdl.Proofs.Directive
import WebIdl.Proofs.Shape.Form
import WebIdl.Proofs.Token.Lossless
import WebIdl.Proofs.Tweak
import WebIdl.Proofs.Dialect.RoundTrip
import WebIdl.Proofs.Safe.Definitions
import WebIdl.Proofs.Parser.Yields
import WebIdl.Proofs.Dialect.Extension
import WebIdl.Proofs.Shape.Formed
import WebIdl.Proofs.Tree.Swap
import WebIdl.Proofs.Shape.Order
import WebIdl.Proofs.Shape.Settled
import WebIdl.Proofs.Shape.Swap
import WebIdl.Proofs.Validation.Mends
import WebIdl.Proofs.Tree.Located
import WebIdl.Proofs.Validation.Step
import WebIdl.Proofs.Token.Lexable
import WebIdl.Proofs.Text.Mask
import WebIdl.Proofs.Dialect.Splice
import WebIdl.Proofs.Validation.Retouch
import WebIdl.Proofs.Validation.Mending
import WebIdl.Proofs.Dialect.Mending
import WebIdl.Proofs.Dialect.Safety
import WebIdl.Proofs.Dialect.Nesting
import WebIdl.Proofs.Session
import WebIdl.Proofs.Tree.Mapped
import WebIdl.Proofs.Parser.Mirror
import WebIdl.Proofs.Mirror.Definitions
import WebIdl.Proofs.Dialect.Alike
import WebIdl.Proofs.Dialect.Outline
import WebIdl.Proofs.Validation.Found
import WebIdl.Proofs.Validation.Effect
import WebIdl.Proofs.Validation.Settle
import WebIdl.Proofs.Validation.Converge
import WebIdl.Proofs.Dialect.Converge
import WebIdl.Proofs.Files.Tree
import WebIdl.Proofs.Batch.Text
import WebIdl.Proofs.Batch.Listing
import WebIdl.Proofs.Batch.Run
import WebIdl.Proofs.Batch.Repeat
import WebIdl.Proofs.Batch.Stop
import WebIdl.Proofs.Token.Scan
import WebIdl.Proofs.Text.Excerpt
import WebIdl.Proofs.Token.Line
import WebIdl.Proofs.Dialect.Container
import WebIdl.Proofs.Derivation.Types
import WebIdl.Proofs.Dialect.Recast
import WebIdl.Proofs.Dialect.Locality
import WebIdl.Proofs.Token.Longest
import WebIdl.Proofs.Tree.Modify
import WebIdl.Proofs.Validation.Commute
import WebIdl.Proofs.Dialect.Commute
import WebIdl.Proofs.Shape.Minor
import WebIdl.Proofs.Validation.Arguments
import WebIdl.Proofs.Dialect.Arguments
import WebIdl.Proofs.Parser.Quiet
import WebIdl.Proofs.Quiet.Members
import WebIdl.Proofs.Quiet.Definitions
import WebIdl.Proofs.Quiet.Deferral
import WebIdl.Proofs.Quiet.Attempt
import WebIdl.Proofs.Shape.Void
import WebIdl.Proofs.Validation.Void
import WebIdl.Proofs.Dialect.Void
