import Scriptlet.Diagnostic
import Scriptlet.Parser.Program
import Scriptlet.Tree.Equality
import Scriptlet.Tree.Spine
import Scriptlet.Proofs.Scan.Feed
import Scriptlet.Proofs.Scan.Trivia
import Scriptlet.Proofs.Scan.Classes
import Scriptlet.Proofs.Scan.Lexeme
import Scriptlet.Proofs.Scan.Delimited
import Scriptlet.Proofs.Scan.Printing
import Scriptlet.Proofs.Syntax.Derivation
import Scriptlet.Proofs.Syntax.Unambiguous
import Scriptlet.Proofs.Syntax.Agenda
import Scriptlet.Proofs.Syntax.Reading
import Scriptlet.Proofs.Syntax.ReadingExpression
import Scriptlet.Proofs.Syntax.ReadingStatement
import Scriptlet.Proofs.Syntax.Passing
import Scriptlet.Proofs.Syntax.Acceptance
import Scriptlet.Proofs.Syntax.FirstFault
import Scriptlet.Proofs.Scan.Boundary
import Scriptlet.Proofs.Scan.Spacing
import Scriptlet.Proofs.Number.Rounding
import Scriptlet.Proofs.Syntax.Content
import Scriptlet.Proofs.Syntax.Expressible
import Scriptlet.Proofs.Syntax.Image
import Scriptlet.Proofs.Syntax.Respacing
import Scriptlet.Proofs.Number.Decimal
import Scriptlet.Proofs.Json.Reader
import Scriptlet.Proofs.Json.Numeral
import Scriptlet.Proofs.Json.RoundTrip
import Scriptlet.Proofs.Json.Members
import Scriptlet.Proofs.Json.HandOff
import Scriptlet.Proofs.Text.Place
import Scriptlet.Proofs.Scan.Standing
import Scriptlet.Proofs.Scan.Reserved
import Scriptlet.Proofs.Scan.NextLine
import Scriptlet.Proofs.Syntax.Composition
import Scriptlet.Proofs.Syntax.Unfinished
import Scriptlet.Proofs.Syntax.Pointing
import Scriptlet.Proofs.Scan.History
import Scriptlet.Proofs.Syntax.Caret
import Scriptlet.Proofs.Syntax.TrailingComma
import Scriptlet.Proofs.Syntax.Taking
import Scriptlet.Proofs.Syntax.Progress
import Scriptlet.Proofs.Syntax.Depth
import Scriptlet.Proofs.Syntax.Spine
import Scriptlet.Proofs.Syntax.Expectation
import Scriptlet.Proofs.Syntax.Nesting
import Scriptlet.Proofs.Syntax.Meaning
import Scriptlet.Proofs.Scan.Longest
import Scriptlet.Proofs.Json.Indentation
import Scriptlet.Proofs.Scan.Refusal
import Scriptlet.Proofs.Number.Closest
import Scriptlet.Proofs.Number.Nearest
import Scriptlet.Proofs.Syntax.Literal
