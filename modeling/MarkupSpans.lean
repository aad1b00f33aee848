import MarkupSpans.Compilation
import MarkupSpans.Delivery
import MarkupSpans.Slice
import MarkupSpans.Source.Reading
import MarkupSpans.Style
import MarkupSpans.Value.Copy
import MarkupSpans.Proofs.Nesting
import MarkupSpans.Proofs.InForce
import MarkupSpans.Proofs.Compiling
import MarkupSpans.Proofs.Flattening
import MarkupSpans.Proofs.Ownership
import MarkupSpans.Proofs.Grammar.Derivation
import MarkupSpans.Proofs.Grammar.Literal
import MarkupSpans.Proofs.Grammar.Expression
import MarkupSpans.Proofs.Grammar.Attribute
import MarkupSpans.Proofs.Grammar.Word
import MarkupSpans.Proofs.Delivering
import MarkupSpans.Proofs.Parsing
import MarkupSpans.Proofs.Printing
import MarkupSpans.Proofs.Scoping
import MarkupSpans.Proofs.Lifecycle
import MarkupSpans.Proofs.Plan
import MarkupSpans.Proofs.Execution
import MarkupSpans.Proofs.Place
import MarkupSpans.Proofs.Grammar.Concatenation
import MarkupSpans.Proofs.Grammar.Inside
import MarkupSpans.Proofs.Concatenating
import MarkupSpans.Proofs.Finality
import MarkupSpans.Proofs.Visibility
import MarkupSpans.Proofs.Grammar.Commitment
import MarkupSpans.Proofs.Faults
import MarkupSpans.Proofs.Streaming
import MarkupSpans.Proofs.Rendering
import MarkupSpans.Proofs.Reporting
import MarkupSpans.Proofs.LateCheck
import MarkupSpans.Proofs.Charging
import MarkupSpans.Proofs.Firing
import MarkupSpans.Proofs.HandingOut
import MarkupSpans.Proofs.Number.Rounding
import MarkupSpans.Proofs.Number.Shortest
import MarkupSpans.Proofs.Number.Positional
import MarkupSpans.Proofs.Grammar.Marks
import MarkupSpans.Proofs.Reprinting
import MarkupSpans.Proofs.Warnings
import MarkupSpans.Proofs.Permitting
import MarkupSpans.Proofs.Repeating
import MarkupSpans.Proofs.Naming
import MarkupSpans.Proofs.Lines
import MarkupSpans.Proofs.Locating
import MarkupSpans.Proofs.Number.Overflow
import MarkupSpans.Proofs.Styling
import MarkupSpans.Proofs.AsciiOutput
import MarkupSpans.Proofs.Trying
import MarkupSpans.Proofs.Hexadecimal
import MarkupSpans.Proofs.Colors
import MarkupSpans.Proofs.Bags
import MarkupSpans.Proofs.JsonOutput
import MarkupSpans.Proofs.Advancing
