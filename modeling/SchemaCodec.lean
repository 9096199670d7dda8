import SchemaCodec.Cache
import SchemaCodec.Codec.Decoding
import SchemaCodec.Codec.Encoding
import SchemaCodec.Codec.Program
import SchemaCodec.Codec.Record
import SchemaCodec.Codec.Run
import SchemaCodec.CommandLine.Arguments
import SchemaCodec.CommandLine.Failure
import SchemaCodec.CommandLine.Run
import SchemaCodec.Decimal.Notation
import SchemaCodec.Decimal.Shortest
import SchemaCodec.Document.Basic
import SchemaCodec.Document.Error
import SchemaCodec.Emitter
import SchemaCodec.Files.Basic
import SchemaCodec.Files.Error
import SchemaCodec.Files.Path
import SchemaCodec.Files.Schema
import SchemaCodec.Files.Tree
import SchemaCodec.Generate
import SchemaCodec.Item
import SchemaCodec.Item.Basic
import SchemaCodec.Item.Enum
import SchemaCodec.Item.Record
import SchemaCodec.Json.Number
import SchemaCodec.Json.Reader
import SchemaCodec.Json.Text
import SchemaCodec.Json.Value
import SchemaCodec.Main
import SchemaCodec.Proofs.Acceptance
import SchemaCodec.Proofs.Boxing
import SchemaCodec.Proofs.Calls
import SchemaCodec.Proofs.Confinement
import SchemaCodec.Proofs.Containment
import SchemaCodec.Proofs.Emission
import SchemaCodec.Proofs.Encoder
import SchemaCodec.Proofs.Evolution
import SchemaCodec.Proofs.Faults
import SchemaCodec.Proofs.Frame
import SchemaCodec.Proofs.InputEnd
import SchemaCodec.Proofs.MinimalSize
import SchemaCodec.Proofs.Reading
import SchemaCodec.Proofs.Refusal
import SchemaCodec.Proofs.RoundTrip
import SchemaCodec.Proofs.Statements
import SchemaCodec.Proofs.Validity
import SchemaCodec.Proofs.WireFormat
import SchemaCodec.Schema.Basic
import SchemaCodec.Schema.Containment
import SchemaCodec.Schema.Definition
import SchemaCodec.Schema.Document
import SchemaCodec.Schema.Error
import SchemaCodec.Schema.Json
import SchemaCodec.Schema.Load
import SchemaCodec.Schema.Scalar
import SchemaCodec.Schema.Settings
import SchemaCodec.Schema.Ty
import SchemaCodec.Schema.Ty.Parser
import SchemaCodec.Schema.WireSize
import SchemaCodec.Source.Code
import SchemaCodec.Source.Emit
import SchemaCodec.Source.Error
import SchemaCodec.Source.Identifier
import SchemaCodec.Source.Target
import SchemaCodec.Source.Text
import SchemaCodec.Text.Blank
import SchemaCodec.Text.Case
import SchemaCodec.Text.CaseTable
import SchemaCodec.Text.Lines
import SchemaCodec.Text.PrintTable
import SchemaCodec.Text.Quoted
import SchemaCodec.Text.Span
import SchemaCodec.Toml.Parser
import SchemaCodec.Toml.Reader
import SchemaCodec.Toml.Scalar
import SchemaCodec.Toml.Value
import SchemaCodec.Value.Basic
import SchemaCodec.Value.Zero
import SchemaCodec.Wire.Bytes
import SchemaCodec.Wire.Date
import SchemaCodec.Wire.Error
import SchemaCodec.Wire.Guid
import SchemaCodec.Wire.Reader
import SchemaCodec.Wire.Writer
import SchemaCodec.Proofs.Termination
import SchemaCodec.Proofs.CountCheck
import SchemaCodec.Proofs.TypeGrammar
import SchemaCodec.Proofs.JsonRoundTrip
import SchemaCodec.Proofs.Pruning
import SchemaCodec.Proofs.Commands
import SchemaCodec.Proofs.Documentation
import SchemaCodec.Proofs.CarriageReturn
import SchemaCodec.Proofs.Assembly
import SchemaCodec.Proofs.SmallestValue
import SchemaCodec.Proofs.TagOrder
import SchemaCodec.Proofs.Steps
import SchemaCodec.Proofs.Amplification
import SchemaCodec.Proofs.FrameDiscipline
import SchemaCodec.Proofs.TypeText
import SchemaCodec.Proofs.Words
import SchemaCodec.Proofs.Legality
import SchemaCodec.Proofs.Clock
import SchemaCodec.Proofs.Recency
import SchemaCodec.Proofs.Hosts
import SchemaCodec.Proofs.Cursor
import SchemaCodec.Proofs.Bulk
import SchemaCodec.Proofs.Dangling
import SchemaCodec.Proofs.Footprint
import SchemaCodec.Proofs.SnakeCase
import SchemaCodec.Proofs.Scopes
import SchemaCodec.Proofs.Insertion
import SchemaCodec.Proofs.Literals
import SchemaCodec.Proofs.MemberNames
import SchemaCodec.Proofs.Uncased
import SchemaCodec.Proofs.Phrases
import SchemaCodec.Proofs.Composition
import SchemaCodec.Proofs.RuntimePath
import SchemaCodec.Proofs.Blocks
import SchemaCodec.Proofs.Agreement
import SchemaCodec.Proofs.Worklist
import SchemaCodec.Proofs.PathGuard
import SchemaCodec.Proofs.BareReturns
