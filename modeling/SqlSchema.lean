import SqlSchema.Main
import SqlSchema.Proofs.Batch.Concatenation
import SqlSchema.Proofs.Batch.Interruption
import SqlSchema.Proofs.Batch.Replay
import SqlSchema.Proofs.Reader.Taking
import SqlSchema.Proofs.Text.Quoted
import SqlSchema.Proofs.Reader.Spelling
import SqlSchema.Proofs.Written.Lexeme
import SqlSchema.Proofs.Reader.Opening
import SqlSchema.Proofs.Written.Numeral
import SqlSchema.Proofs.Written.Column
import SqlSchema.Proofs.Written.Index
import SqlSchema.Proofs.Written.Table
import SqlSchema.Proofs.Written.IndexStatement
import SqlSchema.Proofs.Token.Phrase
import SqlSchema.Proofs.Statement.Lines
import SqlSchema.Proofs.Statement.Split
import SqlSchema.Proofs.Token.Scan
import SqlSchema.Proofs.Token.Shape
import SqlSchema.Proofs.Written.Neat
import SqlSchema.Proofs.Written.RoundTrip
import SqlSchema.Proofs.Statement.Commented
import SqlSchema.Proofs.Definition.Table
import SqlSchema.Proofs.Schema.WellFormed
import SqlSchema.Proofs.Reader.WellFormed
import SqlSchema.Proofs.Definition.WellFormed
import SqlSchema.Proofs.Definition.Destructive
import SqlSchema.Proofs.Batch.Destructive
import SqlSchema.Proofs.Reader.Similar
import SqlSchema.Proofs.Reader.Matching
import SqlSchema.Proofs.Reader.Seen
import SqlSchema.Proofs.Reader.MatchedLiteral
import SqlSchema.Proofs.Reader.Matched
import SqlSchema.Proofs.Definition.Dialects
import SqlSchema.Proofs.Reader.Squeezed
import SqlSchema.Proofs.Statement.Laid
import SqlSchema.Proofs.Statement.Spaced
import SqlSchema.Proofs.Definition.Spacing
import SqlSchema.Proofs.Definition.Single
import SqlSchema.Proofs.CommandLine.Concatenation
import SqlSchema.Proofs.Definition.Lower
import SqlSchema.Proofs.Definition.IndexColumns
import SqlSchema.Proofs.Definition.Heads
import SqlSchema.Proofs.Statement.Interleaved
import SqlSchema.Proofs.Written.Verbatim
import SqlSchema.Proofs.Written.Escaped
import SqlSchema.Proofs.Statement.Hidden
import SqlSchema.Proofs.Statement.Visible
import SqlSchema.Proofs.Batch.Remarks
import SqlSchema.Proofs.Statement.Kind
import SqlSchema.Proofs.Token.Role
import SqlSchema.Proofs.Definition.Disguise
import SqlSchema.Proofs.Written.Described
import SqlSchema.Proofs.Schema.Table
import SqlSchema.Proofs.Tree.Guarded
import SqlSchema.Proofs.Reader.Numerals
import SqlSchema.Proofs.Reader.Composed
import SqlSchema.Proofs.Reader.Failing
import SqlSchema.Proofs.Reader.Bounds
import SqlSchema.Proofs.Tree.Position
import SqlSchema.Proofs.Number.Overflow
import SqlSchema.Proofs.Written.Scientific
import SqlSchema.Proofs.Reader.Drawn
import SqlSchema.Proofs.Definition.Malformed
import SqlSchema.Proofs.Number.Nearest
import SqlSchema.Proofs.Schema.Number
import SqlSchema.Proofs.Statement.Sealed
import SqlSchema.Proofs.Tree.Semicolon
import SqlSchema.Proofs.Batch.Lossless
import SqlSchema.Proofs.Settings.Run
import SqlSchema.Proofs.CommandLine.Logging
import SqlSchema.Proofs.Statement.HashScan
import SqlSchema.Proofs.Reader.Moving
import SqlSchema.Proofs.Reader.Progress
