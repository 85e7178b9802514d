import Esolang.Befunge.Direction
import Esolang.Befunge.Instruction
import Esolang.Befunge.Machine
import Esolang.Befunge.Playfield
import Esolang.Brainfuck.Machine
import Esolang.Brainfuck.Program
import Esolang.Chef.Cookbook
import Esolang.Chef.Cooking
import Esolang.Chef.Kitchen
import Esolang.Chef.Machine
import Esolang.Chef.Method
import Esolang.Chef.Operation
import Esolang.Chef.Pantry
import Esolang.Chef.Statement
import Esolang.Cli.Batch
import Esolang.Cli.Debugger
import Esolang.Cli.Invocation
import Esolang.Cli.Program
import Esolang.Cli.Transcript
import Esolang.Controller.Basic
import Esolang.Controller.Run
import Esolang.Deadfish
import Esolang.Draws
import Esolang.Failure
import Esolang.Format
import Esolang.Input
import Esolang.Json.Read
import Esolang.Json.Write
import Esolang.Language
import Esolang.Main
import Esolang.Number.Decimal
import Esolang.Number.Double
import Esolang.Number.Limit
import Esolang.Number.Numeral
import Esolang.Proofs.Chef.Block
import Esolang.Proofs.Chef.Statement
import Esolang.Registry
import Esolang.Source.Context
import Esolang.Source.Rejection
import Esolang.Source.Span
import Esolang.Step
import Esolang.Table
import Esolang.Text.Blank
import Esolang.Text.CodePoint
import Esolang.Text.Digit
import Esolang.Text.Lines
import Esolang.Text.Phrase
import Esolang.Text.Printable
import Esolang.Text.Quoted
import Esolang.Text.Utf8
import Esolang.Value.Basic
import Esolang.Value.Literal
import Esolang.Value.Panel
import Esolang.Value.Plain
import Esolang.Value.Transport
import Esolang.Yaml.Layout
import Esolang.Yaml.Meaning
import Esolang.Yaml.Node
import Esolang.Yaml.Number
import Esolang.Yaml.Page
import Esolang.Yaml.Place
import Esolang.Yaml.Read
import Esolang.Yaml.Scalar
import Esolang.Yaml.Style
import Esolang.Yaml.Token
import Esolang.Yaml.Write
import Esolang.Proofs.Chef.Nesting
import Esolang.Proofs.Chef.Cookbook
import Esolang.Proofs.Chef.Loops
import Esolang.Proofs.Chef.Kitchen
import Esolang.Proofs.Chef.Safety
import Esolang.Proofs.Chef.Finishing
import Esolang.Proofs.Chef.Refinement
import Esolang.Proofs.Controller.Exclusion
import Esolang.Proofs.Controller.Interleaving
import Esolang.Proofs.Controller.Reenactment
import Esolang.Proofs.Controller.Schedule
import Esolang.Proofs.Controller.Transparency
import Esolang.Proofs.Controller.PauseRequests
import Esolang.Proofs.Controller.Breakpoints
import Esolang.Proofs.Befunge.Bounds
import Esolang.Proofs.Befunge.Wrapping
import Esolang.Proofs.Befunge.Invariant
import Esolang.Proofs.Befunge.Mirroring
import Esolang.Proofs.Brainfuck.Refinement
import Esolang.Proofs.Chef.Isolation
import Esolang.Proofs.Controller.Agreement
import Esolang.Proofs.Chef.SourceMap
import Esolang.Proofs.NextPlace
import Esolang.Proofs.Chef.Layout
import Esolang.Proofs.Cli.ExitStatus
import Esolang.Proofs.Chef.ReadBack
import Esolang.Proofs.Befunge.Retrying
import Esolang.Proofs.Chef.Refusals
import Esolang.Proofs.Rejections
import Esolang.Proofs.Cli.Rounds
import Esolang.Proofs.Cli.StartingOver
import Esolang.Proofs.Chef.Inventory
import Esolang.Proofs.Number.Decimal
import Esolang.Proofs.Table
import Esolang.Proofs.Value.Plain
import Esolang.Proofs.Json.RoundTrip
import Esolang.Proofs.Value.StepResult
import Esolang.Proofs.Lossless
import Esolang.Proofs.Chef.FailedStatement
import Esolang.Proofs.Chef.FailedServing
import Esolang.Proofs.Chef.WellNested
import Esolang.Proofs.Chef.Sentence
import Esolang.Proofs.Chef.Decoding
import Esolang.Proofs.Brainfuck.Brackets
import Esolang.Proofs.Chef.Folding
import Esolang.Proofs.Brainfuck.Cells
import Esolang.Proofs.Chef.Outline
import Esolang.Proofs.Chef.Periods
import Esolang.Proofs.Befunge.ZerosBelow
import Esolang.Proofs.Chef.Footprint
import Esolang.Proofs.Reading
import Esolang.Proofs.Chef.Taking
import Esolang.Proofs.DisplayLines
import Esolang.Proofs.ErrorContext
import Esolang.Proofs.Words
import Esolang.Proofs.Chef.Pantry
import Esolang.Proofs.Befunge.Remainder
import Esolang.Proofs.Brainfuck.Panel
