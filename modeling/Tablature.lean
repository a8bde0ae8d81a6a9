import Tablature.CommandLine.Run
import Tablature.Files.Tree
import Tablature.Main
import Tablature.Proofs.Token.Scan
import Tablature.Proofs.Token.Layout
import Tablature.Proofs.Token.Division
import Tablature.Proofs.Token.Flaw
import Tablature.Proofs.Token.Grammar
import Tablature.Proofs.Token.Recovery
import Tablature.Proofs.Token.Lines
import Tablature.Proofs.Token.LineEnding
import Tablature.Proofs.Token.Cursor
import Tablature.Proofs.Binary64.Nearest
import Tablature.Proofs.Binary64.Fraction
import Tablature.Proofs.Meter.Label
import Tablature.Proofs.Meter.Steps
import Tablature.Proofs.Meter.Numbered
import Tablature.Proofs.Meter.Subdivision
import Tablature.Proofs.Clock
import Tablature.Proofs.Outcome
import Tablature.Proofs.Text.Parts
import Tablature.Proofs.Text.Numeral
import Tablature.Proofs.Text.LineEnding
import Tablature.Proofs.Text.Utf8
import Tablature.Proofs.Job
import Tablature.Proofs.Job.Derived
import Tablature.Proofs.Files.Tree
import Tablature.Proofs.Files.Directories
import Tablature.Proofs.Setting.Grammar
import Tablature.Proofs.Setting.Segments
import Tablature.Proofs.Setting.LineEnding
import Tablature.Proofs.Setting
import Tablature.Proofs.Staff.Row
import Tablature.Proofs.Staff.Drawn
import Tablature.Proofs.Staff.Strokes
import Tablature.Proofs.Staff.Written
import Tablature.Proofs.Staff.Columns
import Tablature.Proofs.Staff.Decoding
import Tablature.Proofs.Staff.Counters
import Tablature.Proofs.Staff.Extends
import Tablature.Proofs.Score.History
import Tablature.Proofs.Score.Failure
import Tablature.Proofs.Score.Behind
import Tablature.Proofs.Score.Plan
import Tablature.Proofs.Rendering
import Tablature.Proofs.Render
import Tablature.Proofs.Report
import Tablature.Proofs.Composition
import Tablature.Proofs.Shorthand
import Tablature.Proofs.Renderer
import Tablature.Proofs.Interpret
import Tablature.Proofs.Commands
import Tablature.Proofs.LineEnding
import Tablature.Proofs.CommandLine.Arguments
import Tablature.Proofs.CommandLine.Store
import Tablature.Proofs.CommandLine.Transcript
import Tablature.Proofs.CommandLine.Modes
import Tablature.Proofs.CommandLine.Frame
import Tablature.Proofs.CommandLine.Containment
