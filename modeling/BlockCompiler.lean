import BlockCompiler.Text.Blank
import BlockCompiler.Text.Lines
import BlockCompiler.Text.Name
import BlockCompiler.Text.Range
import BlockCompiler.Text.Extender
import BlockCompiler.Text.Ignorable
import BlockCompiler.Text.Unprinted
import BlockCompiler.Text.Wide
import BlockCompiler.Text.Emoji
import BlockCompiler.Text.Joining
import BlockCompiler.Text.Width
import BlockCompiler.Text.Quoted
import BlockCompiler.Text.Control
import BlockCompiler.Dict
import BlockCompiler.TypeSet
import BlockCompiler.KeySet
import BlockCompiler.Incident
import BlockCompiler.Diagnostic
import BlockCompiler.Collector
import BlockCompiler.Decimal.Numeral
import BlockCompiler.Decimal.Whole
import BlockCompiler.Decimal.Binary64
import BlockCompiler.Decimal.Shortest
import BlockCompiler.Json.Value
import BlockCompiler.Json.Printer
import BlockCompiler.Json.Token
import BlockCompiler.Json.Tree
import BlockCompiler.Graph.Node
import BlockCompiler.Graph.Basic
import BlockCompiler.Graph.Defect
import BlockCompiler.Graph.Search
import BlockCompiler.Graph.Draft
import BlockCompiler.Graph.Document
import BlockCompiler.Notice
import BlockCompiler.Code
import BlockCompiler.Backend
import BlockCompiler.Script
import BlockCompiler.Run
import BlockCompiler.Job
import BlockCompiler.Blocks.Operator
import BlockCompiler.Blocks.Expression
import BlockCompiler.Blocks.Hardware
import BlockCompiler.Blocks.Control
import BlockCompiler.Blocks.Routine
import BlockCompiler.Compile
import BlockCompiler.Exchange
import BlockCompiler.Failure
import BlockCompiler.Report.Style
import BlockCompiler.Report.Table
import BlockCompiler.Report.Basic
import BlockCompiler.CommandLine.Arguments
import BlockCompiler.CommandLine.Plan
import BlockCompiler.CommandLine.Folder
import BlockCompiler.Main
import BlockCompiler.Proofs.Text.Lines
import BlockCompiler.Proofs.Text.Layout
import BlockCompiler.Proofs.Collector
import BlockCompiler.Proofs.Dictionary
import BlockCompiler.Proofs.Graph.Ascent
import BlockCompiler.Proofs.Graph.Edges
import BlockCompiler.Proofs.Graph.Editing
import BlockCompiler.Proofs.Graph.Search
import BlockCompiler.Proofs.Graph.Validation
import BlockCompiler.Proofs.Graph.Forest
import BlockCompiler.Proofs.Graph.Containment
import BlockCompiler.Proofs.Graph.Descent
import BlockCompiler.Proofs.Graph.Likeness
import BlockCompiler.Proofs.Graph.Reordering
import BlockCompiler.Proofs.Generation.Blocks
import BlockCompiler.Proofs.Generation.Depth
import BlockCompiler.Proofs.Generation.Sections
import BlockCompiler.Proofs.Generation.Shelter
import BlockCompiler.Proofs.Generation.Outline
import BlockCompiler.Proofs.Generation.Visits
import BlockCompiler.Proofs.Generation.Retyping
import BlockCompiler.Proofs.Generation.Setup
import BlockCompiler.Proofs.Generation.Contract
import BlockCompiler.Proofs.Expression.Grammar
import BlockCompiler.Proofs.Expression.Tree
import BlockCompiler.Proofs.Generation.Results
import BlockCompiler.Proofs.Expression.Spelling
import BlockCompiler.Proofs.Expression.Rendering
import BlockCompiler.Proofs.Expression.Settling
import BlockCompiler.Proofs.Expression.Arduino
import BlockCompiler.Proofs.Expression.Python
import BlockCompiler.Proofs.Expression.MicroPython
import BlockCompiler.Proofs.Generation.Statements
import BlockCompiler.Proofs.Generation.Indentation
import BlockCompiler.Proofs.Generation.Course
import BlockCompiler.Proofs.Generation.Orphans
import BlockCompiler.Proofs.Generation.Census
import BlockCompiler.Proofs.Generation.Parallel
import BlockCompiler.Proofs.Generation.Counterparts
import BlockCompiler.Proofs.Generation.Alignment
import BlockCompiler.Proofs.Generation.Isolation
import BlockCompiler.Proofs.Generation.RecordOrder
import BlockCompiler.Proofs.Generation.Footprint
import BlockCompiler.Proofs.Generation.Independence
import BlockCompiler.Proofs.Generation.Replay
import BlockCompiler.Proofs.Generation.Preview
import BlockCompiler.Proofs.Text.Nesting
import BlockCompiler.Proofs.Generation.Nesting
import BlockCompiler.Proofs.Graph.Parents
import BlockCompiler.Proofs.Graph.Surroundings
import BlockCompiler.Proofs.Json.Tree
import BlockCompiler.Proofs.Json.Writing
import BlockCompiler.Proofs.Json.Reading
import BlockCompiler.Proofs.Json.RoundTrip
import BlockCompiler.Proofs.Graph.Circles
import BlockCompiler.Proofs.Graph.Linking
import BlockCompiler.Proofs.Graph.Resolution
import BlockCompiler.Proofs.Graph.Roots
import BlockCompiler.Proofs.Generation.Declarations
import BlockCompiler.Proofs.Generation.Timers
import BlockCompiler.Proofs.Expression.Literal
import BlockCompiler.Proofs.Generation.Lockstep
import BlockCompiler.Proofs.Generation.Wording
import BlockCompiler.Proofs.Expression.Integer
import BlockCompiler.Proofs.Generation.Globals
import BlockCompiler.Proofs.Expression.Counting
import BlockCompiler.Proofs.Generation.Counting
import BlockCompiler.Proofs.Text.Words
import BlockCompiler.Proofs.Generation.Naming
import BlockCompiler.Proofs.Generation.Imports
import BlockCompiler.Proofs.Generation.Arrangement
import BlockCompiler.Proofs.Generation.Orders
import BlockCompiler.Proofs.Generation.Inputs
import BlockCompiler.Proofs.Generation.Omission
import BlockCompiler.Proofs.Generation.LoopExit
import BlockCompiler.Proofs.Generation.Termination
import BlockCompiler.Proofs.Generation.WholeLines
import BlockCompiler.Proofs.Generation.Comments
import BlockCompiler.Proofs.Generation.Options
import BlockCompiler.Proofs.Registration
import BlockCompiler.Proofs.Text.Indent
import BlockCompiler.Proofs.Generation.Placeholders
