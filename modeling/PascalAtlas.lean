import PascalAtlas.Analysis
import PascalAtlas.Batch
import PascalAtlas.Batch.Report
import PascalAtlas.Binary64
import PascalAtlas.Command
import PascalAtlas.Command.Run
import PascalAtlas.Config
import PascalAtlas.Config.Find
import PascalAtlas.Document
import PascalAtlas.Document.Json
import PascalAtlas.Effect
import PascalAtlas.FilePath
import PascalAtlas.FileSystem
import PascalAtlas.FileTree
import PascalAtlas.Frontend
import PascalAtlas.Json
import PascalAtlas.Lowering
import PascalAtlas.Main
import PascalAtlas.Ordered
import PascalAtlas.Params
import PascalAtlas.Parser
import PascalAtlas.Parser.Grammar
import PascalAtlas.Parser.Scan
import PascalAtlas.Parser.State
import PascalAtlas.Parser.Step
import PascalAtlas.Pattern
import PascalAtlas.Position
import PascalAtlas.Proofs.Accounted
import PascalAtlas.Proofs.Adds
import PascalAtlas.Proofs.Aligned
import PascalAtlas.Proofs.Alike
import PascalAtlas.Proofs.Assigned
import PascalAtlas.Proofs.Attached
import PascalAtlas.Proofs.Block
import PascalAtlas.Proofs.BlockGrammar
import PascalAtlas.Proofs.BlockWords
import PascalAtlas.Proofs.Blueprint
import PascalAtlas.Proofs.BodyText
import PascalAtlas.Proofs.Bound
import PascalAtlas.Proofs.Called
import PascalAtlas.Proofs.CanonicalParams
import PascalAtlas.Proofs.Captured
import PascalAtlas.Proofs.Casing
import PascalAtlas.Proofs.Classified
import PascalAtlas.Proofs.Companions
import PascalAtlas.Proofs.Complete
import PascalAtlas.Proofs.Configured
import PascalAtlas.Proofs.Counted
import PascalAtlas.Proofs.Cuts
import PascalAtlas.Proofs.Derivation
import PascalAtlas.Proofs.ExactEffects
import PascalAtlas.Proofs.Excerpt
import PascalAtlas.Proofs.Filled
import PascalAtlas.Proofs.Fallible
import PascalAtlas.Proofs.Findings
import PascalAtlas.Proofs.FirstFault
import PascalAtlas.Proofs.Forest
import PascalAtlas.Proofs.Inferred
import PascalAtlas.Proofs.Insertion
import PascalAtlas.Proofs.Joined
import PascalAtlas.Proofs.Layout
import PascalAtlas.Proofs.Line
import PascalAtlas.Proofs.Listed
import PascalAtlas.Proofs.Literal
import PascalAtlas.Proofs.Local
import PascalAtlas.Proofs.Located
import PascalAtlas.Proofs.Lossless
import PascalAtlas.Proofs.Masked
import PascalAtlas.Proofs.MaskedBytes
import PascalAtlas.Proofs.MaskedLine
import PascalAtlas.Proofs.MaskedTokens
import PascalAtlas.Proofs.MaskedUnit
import PascalAtlas.Proofs.Matching
import PascalAtlas.Proofs.Neighbour
import PascalAtlas.Proofs.Nested
import PascalAtlas.Proofs.OpenFrames
import PascalAtlas.Proofs.Paired
import PascalAtlas.Proofs.ParamList
import PascalAtlas.Proofs.Parsed
import PascalAtlas.Proofs.Partition
import PascalAtlas.Proofs.Piece
import PascalAtlas.Proofs.Production
import PascalAtlas.Proofs.Progress
import PascalAtlas.Proofs.Registered
import PascalAtlas.Proofs.Relisted
import PascalAtlas.Proofs.Rendered
import PascalAtlas.Proofs.Reported
import PascalAtlas.Proofs.Reread
import PascalAtlas.Proofs.Resolved
import PascalAtlas.Proofs.RoundTrip
import PascalAtlas.Proofs.Runs
import PascalAtlas.Proofs.ScannedClass
import PascalAtlas.Proofs.ScannedMember
import PascalAtlas.Proofs.ScannedRoutine
import PascalAtlas.Proofs.ScannedUnit
import PascalAtlas.Proofs.Seen
import PascalAtlas.Proofs.Spacing
import PascalAtlas.Proofs.Span
import PascalAtlas.Proofs.Spoken
import PascalAtlas.Proofs.Stream
import PascalAtlas.Proofs.Told
import PascalAtlas.Proofs.Unfaulted
import PascalAtlas.Proofs.Unquoted
import PascalAtlas.Proofs.Utf8
import PascalAtlas.Proofs.View
import PascalAtlas.Proofs.Written
import PascalAtlas.Proofs.Yield
import PascalAtlas.SemanticType
import PascalAtlas.Settings
import PascalAtlas.SourceUnit
import PascalAtlas.SourceUnit.Json
import PascalAtlas.SourceUnit.Mask
import PascalAtlas.SourceUnit.OfText
import PascalAtlas.SourceUnit.OfTree
import PascalAtlas.Statement
import PascalAtlas.Text
import PascalAtlas.Text.Blank
import PascalAtlas.Text.Quoted
import PascalAtlas.Text.Utf8
import PascalAtlas.Text.Word
import PascalAtlas.Token
import PascalAtlas.Token.Lexer
import PascalAtlas.Toml
import PascalAtlas.Toml.Document
import PascalAtlas.Toml.Draft
import PascalAtlas.Toml.Literal
import PascalAtlas.Tree
