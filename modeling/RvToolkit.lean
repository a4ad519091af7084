import RvToolkit.Action
import RvToolkit.Assembly.Basic
import RvToolkit.Assembly.Image
import RvToolkit.Assembly.Line
import RvToolkit.Assembly.Program
import RvToolkit.Assembly.Symbol
import RvToolkit.Assembly.Encoding
import RvToolkit.Assoc
import RvToolkit.Check
import RvToolkit.CommandLine.Options
import RvToolkit.CommandLine.Run
import RvToolkit.Debugger.Session
import RvToolkit.Debugger.Words
import RvToolkit.Digest
import RvToolkit.Emulator
import RvToolkit.Euclid
import RvToolkit.Evaluator
import RvToolkit.Evaluator.Standard
import RvToolkit.Expr.Eval
import RvToolkit.Expr.Guard
import RvToolkit.Expr.Token
import RvToolkit.Expr.Tree
import RvToolkit.Fault
import RvToolkit.Files
import RvToolkit.Immediate
import RvToolkit.Instruction.Config
import RvToolkit.Instruction.Encode
import RvToolkit.Instruction.Format
import RvToolkit.Instruction.Table
import RvToolkit.Json.Basic
import RvToolkit.Json.Reader
import RvToolkit.Log
import RvToolkit.Machine.Address
import RvToolkit.Machine.Align
import RvToolkit.Machine.Basic
import RvToolkit.Machine.Execute
import RvToolkit.Machine.Instr
import RvToolkit.Machine.Memory
import RvToolkit.Machine.Privilege
import RvToolkit.Machine.RegisterFile
import RvToolkit.Machine.Step
import RvToolkit.Main
import RvToolkit.Number.Bits
import RvToolkit.Number.Double
import RvToolkit.Number.Literal
import RvToolkit.Number.Radix
import RvToolkit.Number.Shortest
import RvToolkit.Palette
import RvToolkit.Register
import RvToolkit.Release
import RvToolkit.RunPlan
import RvToolkit.Survey.Coverage
import RvToolkit.Survey.Probe
import RvToolkit.Survey.Report
import RvToolkit.Survey.Sample
import RvToolkit.Survey.Verdict
import RvToolkit.Survey.Workload
import RvToolkit.Text.Basic
import RvToolkit.Text.Blank
import RvToolkit.Text.Case
import RvToolkit.Text.Digit
import RvToolkit.Text.Letter
import RvToolkit.Text.Printable
import RvToolkit.Text.Quoted
import RvToolkit.Text.Span
import RvToolkit.Value
import RvToolkit.Word
import RvToolkit.Word.Conversion
import RvToolkit.Word.Operator
import RvToolkit.Proofs.Effect
import RvToolkit.Proofs.Numeral
import RvToolkit.Proofs.Bits
import RvToolkit.Proofs.Expr.Lexing
import RvToolkit.Proofs.Instruction.Layout
import RvToolkit.Proofs.Instruction.Decode
import RvToolkit.Proofs.Instruction.Operands
import RvToolkit.Proofs.Instruction.RoundTrip
import RvToolkit.Proofs.Instruction.Branch
import RvToolkit.Proofs.Instruction.RegisterFields
import RvToolkit.Proofs.Assembly.Reading
import RvToolkit.Proofs.Assembly.Steps
import RvToolkit.Proofs.Assembly.Link
import RvToolkit.Proofs.Machine.Arithmetic
import RvToolkit.Proofs.Machine.Execution
import RvToolkit.Proofs.Machine.Simulation
import RvToolkit.Proofs.Machine.Runs
import RvToolkit.Proofs.Expr.Adequacy
import RvToolkit.Proofs.Assembly.Wrapping
import RvToolkit.Proofs.Assembly.Emission
import RvToolkit.Proofs.Assembly.Expansion
import RvToolkit.Proofs.Assembly.Reports
import RvToolkit.Proofs.Assembly.Listing
import RvToolkit.Proofs.Assembly.Relocation
import RvToolkit.Proofs.Assembly.LabelledLines
import RvToolkit.Proofs.Assembly.Symbols
import RvToolkit.Proofs.Instruction.Shown
import RvToolkit.Proofs.Assembly.Constants
import RvToolkit.Proofs.Assembly.Agreement
import RvToolkit.Proofs.Machine.Shapes
import RvToolkit.Proofs.Expr.Shifted
import RvToolkit.Proofs.Instruction.Halves
import RvToolkit.Proofs.Machine.Frame
import RvToolkit.Proofs.Machine.Display
import RvToolkit.Proofs.Assembly.Spacing
import RvToolkit.Proofs.Folding
import RvToolkit.Proofs.Assembly.Recasing
import RvToolkit.Proofs.Assembly.Respelling
import RvToolkit.Proofs.Assembly.CaseSensitivity
import RvToolkit.Proofs.Keeping
import RvToolkit.Proofs.Machine.RegisterStore
import RvToolkit.Proofs.Machine.Local
import RvToolkit.Proofs.Debugger.Commands
import RvToolkit.Proofs.Debugger.Halting
import RvToolkit.Proofs.Debugger.Sessions
import RvToolkit.Proofs.Debugger.Stepping
import RvToolkit.Proofs.Word.Residue
import RvToolkit.Proofs.Expr.Scanning
import RvToolkit.Proofs.Expr.Grammar
import RvToolkit.Proofs.Machine.IndirectJump
import RvToolkit.Proofs.Assembly.OffsetForms
import RvToolkit.Proofs.Assembly.Nesting
import RvToolkit.Proofs.Expr.Tightening
import RvToolkit.Proofs.Assembly.Substitution
import RvToolkit.Proofs.Assembly.Invocation
import RvToolkit.Proofs.Debugger.Inspection
import RvToolkit.Proofs.Machine.UpperImmediate
import RvToolkit.Proofs.Machine.ForwardRuns
import RvToolkit.Proofs.Machine.ValidAddress
import RvToolkit.Proofs.Word.Bytes
import RvToolkit.Proofs.Euclid.Bezout
import RvToolkit.Proofs.Euclid.Solving
import RvToolkit.Proofs.Euclid.Divisors
import RvToolkit.Proofs.Instruction.SignedFields
