import MetricQuery.Query.Parsed
import MetricQuery.Query.Saved
import MetricQuery.Proofs.Text.Classes
import MetricQuery.Proofs.Text.Values
import MetricQuery.Proofs.Grammar.Reads
import MetricQuery.Proofs.Grammar.Spelling
import MetricQuery.Proofs.Grammar.BlockReads
import MetricQuery.Proofs.FilterTree.Written
import MetricQuery.Proofs.FilterTree.Operands
import MetricQuery.Proofs.FilterTree.Ingest
import MetricQuery.Proofs.FilterTree.Meaning
import MetricQuery.Proofs.FilterTree.Normal
import MetricQuery.Proofs.Grammar.Arguments
import MetricQuery.Proofs.Grammar.SuffixReads
import MetricQuery.Proofs.Query.Reads
import MetricQuery.Proofs.Query.RoundTrip
import MetricQuery.Proofs.Grammar.Yields
import MetricQuery.Proofs.Query.Legible
import MetricQuery.Proofs.FilterTree.FromText
import MetricQuery.Proofs.Query.Reread
import MetricQuery.Proofs.Grammar.Refuses
import MetricQuery.Proofs.FilterTree.Refused
import MetricQuery.Proofs.Query.Refused
import MetricQuery.Proofs.Grammar.Finds
import MetricQuery.Proofs.Grammar.BlockLayout
import MetricQuery.Proofs.Grammar.BlockExact
import MetricQuery.Proofs.Grammar.ExprLayout
import MetricQuery.Proofs.Grammar.TermExact
import MetricQuery.Proofs.Grammar.ExprExact
import MetricQuery.Proofs.Text.Splices
import MetricQuery.Proofs.Grammar.Metrics
import MetricQuery.Proofs.Query.Spliced
import MetricQuery.Proofs.Grammar.Verdict
import MetricQuery.Proofs.FilterTree.Verdict
import MetricQuery.Proofs.Grammar.Rewritten
import MetricQuery.Proofs.Query.Edited
import MetricQuery.Proofs.Grammar.Literals
import MetricQuery.Proofs.Grammar.OtherLiteral
import MetricQuery.Proofs.Query.Literals
import MetricQuery.Proofs.Grammar.Phrased
import MetricQuery.Proofs.Grammar.Shapes
import MetricQuery.Proofs.FilterTree.Listed
import MetricQuery.Proofs.Grammar.Levels
import MetricQuery.Proofs.Grammar.Nesting
import MetricQuery.Proofs.Text.Places
import MetricQuery.Proofs.Grammar.Places
import MetricQuery.Proofs.Json.Reread
import MetricQuery.Proofs.Json.Record
import MetricQuery.Proofs.FilterTree.Saved
import MetricQuery.Proofs.Query.Saved
import MetricQuery.Proofs.Json.Depth
import MetricQuery.Proofs.FilterTree.Appended
import MetricQuery.Proofs.FilterTree.Grown
import MetricQuery.Proofs.Query.Session
import MetricQuery.Proofs.Query.FilterReread
import MetricQuery.Proofs.FilterTree.Accepted
import MetricQuery.Proofs.FilterTree.Nodes
import MetricQuery.Proofs.Query.Search
import MetricQuery.Proofs.FilterTree.Defects
import MetricQuery.Proofs.Query.Defects
import MetricQuery.Proofs.Query.Extended
import MetricQuery.Proofs.Grammar.Precedence
import MetricQuery.Proofs.Filter.Tokens
import MetricQuery.Proofs.Grammar.CleanArguments
import MetricQuery.Proofs.Position.Steps
import MetricQuery.Proofs.Position.Readers
import MetricQuery.Proofs.Position.Tracks
import MetricQuery.Proofs.Position.Blocks
import MetricQuery.Proofs.Position.InRange
