import RomanScript.EditorService
import RomanScript.Keyword.Session
import RomanScript.Main
import RomanScript.Proofs.Reading.Growth
import RomanScript.Proofs.Reading.Simulation
import RomanScript.Proofs.Reading.SimulatedRules
import RomanScript.Proofs.Reading.Derivation
import RomanScript.Proofs.Reading.Soundness
import RomanScript.Proofs.Reading.Program
import RomanScript.Proofs.Reading.Repetition
import RomanScript.Proofs.Reading.Memory
import RomanScript.Proofs.Reading.Concatenation
import RomanScript.Proofs.Reading.Completeness
import RomanScript.Proofs.Reading.Limits
import RomanScript.Proofs.Node.Levels
import RomanScript.Proofs.Node.Shape
import RomanScript.Proofs.Node.Path
import RomanScript.Proofs.Reading.Phrase
import RomanScript.Proofs.Reading.Phrased
import RomanScript.Proofs.Reading.Walk
import RomanScript.Proofs.Reading.Walked
import RomanScript.Proofs.Reading.Nesting
import RomanScript.Proofs.Reading.Bounds
import RomanScript.Proofs.Reading.Taking
import RomanScript.Proofs.Reading.Acceptance
import RomanScript.Proofs.Reading.Blame
import RomanScript.Proofs.Token.Scanned
import RomanScript.Proofs.Program.Judged
import RomanScript.Proofs.Numeral
import RomanScript.Proofs.Program.Lowered
import RomanScript.Proofs.Program.Valid
import RomanScript.Proofs.Compilation
import RomanScript.Proofs.Program.Violations
import RomanScript.Proofs.Program.Evaluation
import RomanScript.Proofs.Program.Preserved
import RomanScript.Proofs.Keyword.Accepted
import RomanScript.Proofs.Keyword.Spelled
import RomanScript.Proofs.Token.Words
import RomanScript.Proofs.Node.Moved
import RomanScript.Proofs.Reading.Moved
import RomanScript.Proofs.Program.Moved
import RomanScript.Proofs.Spacing
import RomanScript.Proofs.Reading.Grouped
import RomanScript.Proofs.Program.Writing
import RomanScript.Proofs.Program.Phrased
import RomanScript.Proofs.Program.Regained
import RomanScript.Proofs.Program.Inscribed
import RomanScript.Proofs.RoundTrip
import RomanScript.Proofs.Token.Scans
import RomanScript.Proofs.Token.Stop
import RomanScript.Proofs.Token.Layout
import RomanScript.Proofs.Culprit
import RomanScript.Proofs.Document.Keyed
import RomanScript.Proofs.Keyword.Usable
import RomanScript.Proofs.Reading.Plan
import RomanScript.Proofs.Reading.Visits
import RomanScript.Proofs.Reading.Unrefused
import RomanScript.Proofs.Reading.CallFree
import RomanScript.Proofs.Reading.Merging
import RomanScript.Proofs.Reading.Operands
import RomanScript.Proofs.Reading.Munch
import RomanScript.Proofs.Reading.Expectation
import RomanScript.Proofs.Reading.Refusal
import RomanScript.Proofs.Token.Lines
import RomanScript.Proofs.Numeral.Greedy
import RomanScript.Proofs.Node.Agreement
import RomanScript.Proofs.Program.Interleaved
import RomanScript.Proofs.Program.Extended
import RomanScript.Proofs.EditorService
import RomanScript.Proofs.Json
import RomanScript.Proofs.Program.Decoded
import RomanScript.Proofs.Keyword.Reordered
import RomanScript.Proofs.Token.LineEnds
import RomanScript.Proofs.LineEnds
import RomanScript.Proofs.CommandLine
import RomanScript.Proofs.Printed
import RomanScript.Proofs.Reading.Progress
import RomanScript.Proofs.Reading.Once
import RomanScript.Proofs.Reading.Session
