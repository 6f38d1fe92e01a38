import GoSift.Main
import GoSift.Syntax.Outline
import GoSift.Proofs.Filter.Balance
import GoSift.Proofs.Filter.Correctness
import GoSift.Proofs.Filter.TypeSafety
import GoSift.Proofs.Pattern.Containment
import GoSift.Proofs.Pattern.Correctness
import GoSift.Proofs.Pattern.Formatting
import GoSift.Proofs.Rule.Isolation
import GoSift.Proofs.Syntax.RoundTrip
import GoSift.Proofs.Pattern.Exhaustive
import GoSift.Proofs.Token.Placement
import GoSift.Proofs.Pattern.Windows
import GoSift.Proofs.Rule.Agreement
import GoSift.Proofs.Filter.Declared
import GoSift.Proofs.Filter.Order
import GoSift.Proofs.Syntax.Shape
import GoSift.Proofs.Syntax.Skipped
import GoSift.Proofs.Syntax.SourceOrder
import GoSift.Proofs.Filter.Registrations
import GoSift.Proofs.Pattern.Backtracking
import GoSift.Proofs.Pattern.Captures
import GoSift.Proofs.Pattern.Sweep
import GoSift.Proofs.Syntax.Totality
import GoSift.Proofs.Syntax.Precedence
import GoSift.Proofs.Filter.StringLiteral
import GoSift.Proofs.Rule.Rendering
import GoSift.Proofs.Token.WholeWords
import GoSift.Proofs.Syntax.ParsedShape
import GoSift.Proofs.Filter.Failures
import GoSift.Proofs.Rule.Diagnostics
