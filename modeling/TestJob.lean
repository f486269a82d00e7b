import TestJob.Audit
import TestJob.Builder
import TestJob.CommandLine.Invocation
import TestJob.CommandLine.Run
import TestJob.Decimal.Binary64
import TestJob.Decimal.Layout
import TestJob.Decimal.Shortest
import TestJob.Definition.Basic
import TestJob.Definition.Capture
import TestJob.Definition.Error
import TestJob.Definition.Format
import TestJob.Definition.Load
import TestJob.Descriptor
import TestJob.Disk
import TestJob.Field
import TestJob.Identifier
import TestJob.IoError
import TestJob.Json.Node
import TestJob.Json.Reader
import TestJob.Json.Token
import TestJob.Json.Value
import TestJob.Json.Writer
import TestJob.Machine
import TestJob.Main
import TestJob.Members
import TestJob.Normalize
import TestJob.NormalizeError
import TestJob.Path
import TestJob.Program
import TestJob.Proofs.Agreement
import TestJob.Proofs.Appending
import TestJob.Proofs.AuditLine
import TestJob.Proofs.AuditTrail
import TestJob.Proofs.Building
import TestJob.Proofs.CanonicalShape
import TestJob.Proofs.Capturing
import TestJob.Proofs.Collecting
import TestJob.Proofs.Commands
import TestJob.Proofs.Decimal.Rounding
import TestJob.Proofs.Decimal.Shortest
import TestJob.Proofs.Decoding
import TestJob.Proofs.DefinitionSchema
import TestJob.Proofs.Directories
import TestJob.Proofs.Disk
import TestJob.Proofs.Effects
import TestJob.Proofs.EmptyFiles
import TestJob.Proofs.FieldTable
import TestJob.Proofs.FieldTypes
import TestJob.Proofs.FirstFault
import TestJob.Proofs.Handoff
import TestJob.Proofs.HandoffFrame
import TestJob.Proofs.Interleaving
import TestJob.Proofs.Json.Canonical
import TestJob.Proofs.Json.Line
import TestJob.Proofs.Json.Literal
import TestJob.Proofs.Json.Node
import TestJob.Proofs.Json.Number
import TestJob.Proofs.Json.Reader
import TestJob.Proofs.Json.Rereading
import TestJob.Proofs.Json.Token
import TestJob.Proofs.Json.Value
import TestJob.Proofs.Json.Writer
import TestJob.Proofs.KeyOrder
import TestJob.Proofs.LoadOutcome
import TestJob.Proofs.Loading
import TestJob.Proofs.LogLines
import TestJob.Proofs.Logging
import TestJob.Proofs.Machine
import TestJob.Proofs.Members
import TestJob.Proofs.Mending
import TestJob.Proofs.Neutrality
import TestJob.Proofs.Objects
import TestJob.Proofs.Outcome
import TestJob.Proofs.PageFile
import TestJob.Proofs.Parsing
import TestJob.Proofs.Path
import TestJob.Proofs.PathLimits
import TestJob.Proofs.PrintedLines
import TestJob.Proofs.Projection
import TestJob.Proofs.Recording
import TestJob.Proofs.Reordering
import TestJob.Proofs.Rereading
import TestJob.Proofs.ResultForms
import TestJob.Proofs.RoundTrip
import TestJob.Proofs.RunReference
import TestJob.Proofs.Running
import TestJob.Proofs.SameData
import TestJob.Proofs.SameText
import TestJob.Proofs.SplitList
import TestJob.Proofs.Staging
import TestJob.Proofs.Submission
import TestJob.Proofs.Text
import TestJob.Proofs.Toml.Conversion
import TestJob.Proofs.Toml.Order
import TestJob.Proofs.Toml.Shape
import TestJob.Proofs.Touching
import TestJob.Proofs.Validity
import TestJob.Proofs.WholeNumbers
import TestJob.Reference.DefinitionPage
import TestJob.Reference.DefinitionSchema
import TestJob.Reference.Example
import TestJob.Schema
import TestJob.Submission.Error
import TestJob.Submission.Handoff
import TestJob.Submission.Recorder
import TestJob.Submission.Result
import TestJob.Text.Blank
import TestJob.Text.Measure
import TestJob.Text.Utf8
import TestJob.Toml.Datetime
import TestJob.Toml.Quoted
import TestJob.Toml.Reader
import TestJob.Toml.Scalar
import TestJob.Toml.Table
import TestJob.Toml.ToJson
import TestJob.Toml.Value
import TestJob.Toml.Written
