import LocaleLint.Abort
import LocaleLint.Batch
import LocaleLint.Calendar.Basic
import LocaleLint.Calendar.Timestamp
import LocaleLint.ColonScan
import LocaleLint.Command.Arguments
import LocaleLint.Command.Run
import LocaleLint.Config.Basic
import LocaleLint.Config.Project
import LocaleLint.Console.Printed
import LocaleLint.Console.Table
import LocaleLint.Console.Width
import LocaleLint.Console.Wrap
import LocaleLint.Diagnostic
import LocaleLint.Encoding.Decode
import LocaleLint.Encoding.Names
import LocaleLint.Encoding.SingleByte
import LocaleLint.Encoding.Utf16
import LocaleLint.Encoding.Utf32
import LocaleLint.Encoding.Utf8
import LocaleLint.Extension
import LocaleLint.File.Access
import LocaleLint.File.Find
import LocaleLint.File.Path
import LocaleLint.File.Resolve
import LocaleLint.File.Tree
import LocaleLint.Interception
import LocaleLint.Json.Basic
import LocaleLint.Main
import LocaleLint.Number.Binary64
import LocaleLint.Number.Numeral
import LocaleLint.Number.Shortest
import LocaleLint.Record.Field
import LocaleLint.Record.Issue
import LocaleLint.Record.Key
import LocaleLint.Rejection
import LocaleLint.Report.Basic
import LocaleLint.Report.Read
import LocaleLint.Report.Step
import LocaleLint.Report.Style
import LocaleLint.Report.Summary
import LocaleLint.Strict
import LocaleLint.Text.Base64
import LocaleLint.Text.CodePoint
import LocaleLint.Text.DecimalDigit
import LocaleLint.Text.Lines
import LocaleLint.Text.Printable
import LocaleLint.Text.Quoted
import LocaleLint.Text.Space
import LocaleLint.Yaml.DuplicateKey
import LocaleLint.Yaml.Event.Basic
import LocaleLint.Yaml.Event.Stream
import LocaleLint.Yaml.Fault
import LocaleLint.Yaml.Mark
import LocaleLint.Yaml.Node.Basic
import LocaleLint.Yaml.Node.Compose
import LocaleLint.Yaml.Node.Tag
import LocaleLint.Yaml.Position
import LocaleLint.Yaml.Problem
import LocaleLint.Yaml.Read
import LocaleLint.Yaml.Token.Basic
import LocaleLint.Yaml.Token.Block
import LocaleLint.Yaml.Token.Directive
import LocaleLint.Yaml.Token.Plain
import LocaleLint.Yaml.Token.Quoted
import LocaleLint.Yaml.Token.Scan
import LocaleLint.Yaml.Token.Stream
import LocaleLint.Yaml.Token.Tag
import LocaleLint.Yaml.Value.Basic
import LocaleLint.Yaml.Value.Build
import LocaleLint.Yaml.Value.Scalar
import LocaleLint.Proofs.Diagnostic
import LocaleLint.Proofs.Interception
import LocaleLint.Proofs.Yaml.Interruption
import LocaleLint.Proofs.Strict
import LocaleLint.Proofs.Script
import LocaleLint.Proofs.Batch
import LocaleLint.Proofs.Batch.Alone
import LocaleLint.Proofs.Yaml.Merge
import LocaleLint.Proofs.Yaml.Flatten
import LocaleLint.Proofs.Yaml.Walk
import LocaleLint.Proofs.Yaml.Origin
import LocaleLint.Proofs.Yaml.Relabel
import LocaleLint.Proofs.Yaml.Construction
import LocaleLint.Proofs.Yaml.Meaning
import LocaleLint.Proofs.Yaml.Sound
import LocaleLint.Proofs.Yaml.Mentions
import LocaleLint.Proofs.Yaml.Meeting
import LocaleLint.Proofs.Yaml.Repetition
import LocaleLint.Proofs.Yaml.Tour
import LocaleLint.Proofs.Yaml.Copies
import LocaleLint.Proofs.Yaml.Recursion
import LocaleLint.Proofs.Yaml.ReportedPlace
import LocaleLint.Proofs.Yaml.Inheritance
import LocaleLint.Proofs.Text.Lines
import LocaleLint.Proofs.Text.Breaks
import LocaleLint.Proofs.Yaml.Position
import LocaleLint.Proofs.ColonScan.Layout
import LocaleLint.Proofs.ColonScan.Place
import LocaleLint.Proofs.ColonScan.DocumentEnd
import LocaleLint.Proofs.ColonScan.FinalFeed
import LocaleLint.Proofs.ColonScan.Numbering
import LocaleLint.Proofs.Command.Arguments
import LocaleLint.Proofs.Command.Ending
import LocaleLint.Proofs.File.Find
import LocaleLint.Proofs.Encoding.Utf8
import LocaleLint.Proofs.Encoding.Decode
import LocaleLint.Proofs.Config.Encodings
import LocaleLint.Proofs.Text.Unbroken
import LocaleLint.Proofs.Report.Concise
import LocaleLint.Proofs.Config.Strictness
import LocaleLint.Proofs.ColonScan.LineEnds
import LocaleLint.Proofs.Report.Caret
import LocaleLint.Proofs.Report.Growth
import LocaleLint.Proofs.File.Resolve
import LocaleLint.Proofs.Config.Root
import LocaleLint.Proofs.Record.Checked
import LocaleLint.Proofs.Config.NormalForm
import LocaleLint.Proofs.Json.Grammar
import LocaleLint.Proofs.Json.Read
import LocaleLint.Proofs.Json.Unambiguous
import LocaleLint.Proofs.Report.Machine
