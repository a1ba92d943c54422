import Typings.Cli.Directory
import Typings.Cli.Options
import Typings.Cli.Run
import Typings.CommentGroup
import Typings.Config
import Typings.Decl.Basic
import Typings.Decl.Parser
import Typings.Diagnostics
import Typings.Json.Reader
import Typings.Json.Value
import Typings.Main
import Typings.Name.Basic
import Typings.Name.Set
import Typings.Name.Style
import Typings.Parser.Basic
import Typings.Parser.Cursor
import Typings.Position
import Typings.Proofs.Attached.Once
import Typings.Proofs.Attached.Places
import Typings.Proofs.Attached.Productions
import Typings.Proofs.Attached.Remarks
import Typings.Proofs.Attached.Runs
import Typings.Proofs.Attached.Uses
import Typings.Proofs.Behind.Comments
import Typings.Proofs.Behind.Gaps
import Typings.Proofs.Behind.Productions
import Typings.Proofs.Behind.Visits
import Typings.Proofs.Behind.Walks
import Typings.Proofs.Bodies.Funcs
import Typings.Proofs.Bodies.Kept
import Typings.Proofs.Bodies.Sequels
import Typings.Proofs.Bodies.Types
import Typings.Proofs.Brackets.Comments
import Typings.Proofs.Brackets.Nested
import Typings.Proofs.Brackets.Output
import Typings.Proofs.Brackets.Types
import Typings.Proofs.Brackets.Words
import Typings.Proofs.Cli.Arguments
import Typings.Proofs.Cli.Mapped
import Typings.Proofs.Cli.Outcomes
import Typings.Proofs.Cli.Reported
import Typings.Proofs.Comments.Bare
import Typings.Proofs.Comments.Inert
import Typings.Proofs.Comments.NormalForm
import Typings.Proofs.Comments.Reader
import Typings.Proofs.Comments.Rendered
import Typings.Proofs.Comments.Slashless
import Typings.Proofs.Comments.Surrounded
import Typings.Proofs.Contained.Decls
import Typings.Proofs.Contained.Exposed
import Typings.Proofs.Contained.Sources
import Typings.Proofs.Contained.Types
import Typings.Proofs.Emitter.Basic
import Typings.Proofs.Emitter.Decls
import Typings.Proofs.Emitter.Height
import Typings.Proofs.Emitter.Independence
import Typings.Proofs.Emitter.Types
import Typings.Proofs.Emitter.Writes
import Typings.Proofs.Filled.Outputs
import Typings.Proofs.Filled.Rendered
import Typings.Proofs.Filled.Types
import Typings.Proofs.Grouped.Comments
import Typings.Proofs.Grouped.Groups
import Typings.Proofs.Grouped.Placed
import Typings.Proofs.Grouped.Sources
import Typings.Proofs.Grouped.Tracks
import Typings.Proofs.Grouped.Types
import Typings.Proofs.Joined.Decls
import Typings.Proofs.Joined.Endings
import Typings.Proofs.Joined.Files
import Typings.Proofs.Joined.Frame
import Typings.Proofs.Joined.Framed
import Typings.Proofs.Joined.Types
import Typings.Proofs.LineEnds.Comments
import Typings.Proofs.LineEnds.Cursors
import Typings.Proofs.LineEnds.Decls
import Typings.Proofs.LineEnds.Items
import Typings.Proofs.LineEnds.Layouts
import Typings.Proofs.LineEnds.Parsers
import Typings.Proofs.LineEnds.Seen
import Typings.Proofs.LineEnds.Types
import Typings.Proofs.Lines.Declarations
import Typings.Proofs.Lines.Files
import Typings.Proofs.Lines.Indented
import Typings.Proofs.Lines.Laid
import Typings.Proofs.Lines.Separated
import Typings.Proofs.Lines.Types
import Typings.Proofs.Lines.Words
import Typings.Proofs.Members.Keys
import Typings.Proofs.Members.Parts
import Typings.Proofs.Members.Written
import Typings.Proofs.Name.Characters
import Typings.Proofs.Name.Identifiers
import Typings.Proofs.Name.Keys
import Typings.Proofs.Name.Parameters
import Typings.Proofs.Parser.Names
import Typings.Proofs.Parser.Reads
import Typings.Proofs.Parser.Shown
import Typings.Proofs.Parser.Steps
import Typings.Proofs.Parser.Uniform
import Typings.Proofs.Precedence.Accepted
import Typings.Proofs.Precedence.Forms
import Typings.Proofs.Precedence.Grouping
import Typings.Proofs.Precedence.Reading
import Typings.Proofs.Precedence.Rendered
import Typings.Proofs.Precedence.Slots
import Typings.Proofs.Precedence.Texts
import Typings.Proofs.Precedence.Unions
import Typings.Proofs.Precedence.Words
import Typings.Proofs.Spelling.ArrayDecls
import Typings.Proofs.Spelling.Completeness
import Typings.Proofs.Spelling.Entries
import Typings.Proofs.Spelling.Essential
import Typings.Proofs.Spelling.FieldsRead
import Typings.Proofs.Spelling.Grammar
import Typings.Proofs.Spelling.Lookahead
import Typings.Proofs.Spelling.Lossless
import Typings.Proofs.Spelling.Reading
import Typings.Proofs.Spelling.RoundTrip
import Typings.Proofs.Spelling.Soundness
import Typings.Proofs.Spelling.TypeParams
import Typings.Proofs.Spelling.TypesRead
import Typings.Proofs.Spelling.Uniform
import Typings.Proofs.Surface.Erasure
import Typings.Proofs.Surface.Forms
import Typings.Proofs.Surface.Merging
import Typings.Proofs.Surface.Qualified
import Typings.Proofs.Surface.Reported
import Typings.Proofs.Surface.Ungrouped
import Typings.Proofs.Surface.Unresolved
import Typings.Proofs.Token.Joined
import Typings.Proofs.Token.Pieces
import Typings.Proofs.Token.Places
import Typings.Proofs.Token.Respelled
import Typings.Proofs.Token.Scanned
import Typings.Proofs.Token.Semicolons
import Typings.Proofs.Token.Spaced
import Typings.Rendering
import Typings.Session
import Typings.Text.CodePoint
import Typings.Text.Decimal
import Typings.Text.Line
import Typings.Text.Quoted
import Typings.Text.Utf8
import Typings.Token.Basic
import Typings.Token.Display
import Typings.Token.Item
import Typings.Token.Layout
import Typings.TsDecl.OfDecl
import Typings.TsType.Basic
import Typings.TsType.OfExpr
import Typings.TsType.Text
import Typings.TypeExpr.Basic
import Typings.TypeExpr.Parser
import Typings.Unicode.Capital
import Typings.Unicode.Letter
import Typings.Unicode.Numeral
import Typings.Unicode.Range
import Typings.Unicode.Unprintable
