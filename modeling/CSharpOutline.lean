import CSharpOutline.Code.Balance
import CSharpOutline.Code.Bracket
import CSharpOutline.Code.Comment
import CSharpOutline.Code.Extent
import CSharpOutline.Code.Group
import CSharpOutline.Code.Lexer
import CSharpOutline.Code.Nesting
import CSharpOutline.Code.Outermost
import CSharpOutline.Code.Token
import CSharpOutline.Declaration.Bases
import CSharpOutline.Declaration.Name
import CSharpOutline.Document.Editor
import CSharpOutline.Document.LineEnding
import CSharpOutline.Document.Snapshot
import CSharpOutline.Fault
import CSharpOutline.Member.Block
import CSharpOutline.Member.Head
import CSharpOutline.Member.Joined
import CSharpOutline.Member.Locate
import CSharpOutline.Member.Method
import CSharpOutline.Member.Modifier
import CSharpOutline.Member.Scan
import CSharpOutline.Proofs.Text.Visible
import CSharpOutline.Service.Decimal
import CSharpOutline.Service.Endpoint
import CSharpOutline.Service.Field
import CSharpOutline.Service.Json
import CSharpOutline.Service.Numeral
import CSharpOutline.Service.Value
import CSharpOutline.Session
import CSharpOutline.Text.Basic
import CSharpOutline.Text.Blank
import CSharpOutline.Text.Offset
import CSharpOutline.Text.PrintableRanges
import CSharpOutline.Text.Quoted
import CSharpOutline.Text.Word
import CSharpOutline.Text.WordRanges
import CSharpOutline.Using.Block
import CSharpOutline.Using.Directive
import CSharpOutline.Proofs.Code.Inert
import CSharpOutline.Proofs.Code.Gap
import CSharpOutline.Proofs.Head.Bound
import CSharpOutline.Proofs.Head.Extend
import CSharpOutline.Proofs.Head.Respace
import CSharpOutline.Proofs.Member.Joined
import CSharpOutline.Proofs.Member.Opening
import CSharpOutline.Proofs.Member.Body
import CSharpOutline.Proofs.Member.SignatureText
import CSharpOutline.Proofs.Member.TrailingComment
import CSharpOutline.Proofs.Member.Locality
import CSharpOutline.Proofs.Member.Wrapping
import CSharpOutline.Proofs.Member.FlatBody
import CSharpOutline.Proofs.Member.InRange
import CSharpOutline.Proofs.Text.Squeeze
import CSharpOutline.Proofs.Head.Reads
import CSharpOutline.Proofs.Head.Squeeze
import CSharpOutline.Proofs.Member.SignatureName
import CSharpOutline.Proofs.Member.Carries
import CSharpOutline.Proofs.Code.Tokens
import CSharpOutline.Proofs.Code.LineBreak
import CSharpOutline.Proofs.Using.Directive
import CSharpOutline.Proofs.Using.Block
import CSharpOutline.Proofs.Text.Returns
import CSharpOutline.Proofs.Document.LineEnding
import CSharpOutline.Proofs.Document.RoundTrip
import CSharpOutline.Proofs.Using.Editing
import CSharpOutline.Proofs.Declaration.Bases
import CSharpOutline.Proofs.Member.Cursor
import CSharpOutline.Proofs.Service.Answers
import CSharpOutline.Proofs.Code.Nesting
import CSharpOutline.Proofs.Head.Parts
import CSharpOutline.Proofs.Head.Stable
import CSharpOutline.Proofs.Head.Declared
import CSharpOutline.Proofs.Declaration.TypeStart
import CSharpOutline.Proofs.Declaration.BaseList
import CSharpOutline.Proofs.Code.Splitting
import CSharpOutline.Proofs.Member.BodyOpener
import CSharpOutline.Proofs.Using.WriteBack
import CSharpOutline.Proofs.Member.MethodSignature
import CSharpOutline.Proofs.Member.Modifier
import CSharpOutline.Proofs.Head.Places
import CSharpOutline.Proofs.Head.Offsets
import CSharpOutline.Proofs.Member.AccessModifiers
import CSharpOutline.Proofs.Code.Stopping
import CSharpOutline.Proofs.Member.Pieces
import CSharpOutline.Proofs.Code.Closing
import CSharpOutline.Proofs.Code.Registers
