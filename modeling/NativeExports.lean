import NativeExports.Architecture
import NativeExports.Assembly.Basic
import NativeExports.Assembly.Building
import NativeExports.Assembly.Loading
import NativeExports.Assembly.References
import NativeExports.Assembly.Renumber
import NativeExports.Assembly.Sorting
import NativeExports.Assembly.Writing
import NativeExports.Bytes
import NativeExports.Bytes.Compressed
import NativeExports.Bytes.Reader
import NativeExports.Code.Instruction
import NativeExports.Code.MethodBody
import NativeExports.Code.Opcode
import NativeExports.CommandLine.Options
import NativeExports.CommandLine.Program
import NativeExports.Error
import NativeExports.Export.Candidate
import NativeExports.Export.EntryPoint
import NativeExports.Export.MarkedMethods
import NativeExports.Export.Marker
import NativeExports.Export.MarkerRemoval
import NativeExports.Export.Wrapper
import NativeExports.Export.Wrapping
import NativeExports.Host.Disk
import NativeExports.Host.Job
import NativeExports.Host.Output
import NativeExports.Host.Path
import NativeExports.Image.Alignment
import NativeExports.Image.Basic
import NativeExports.Image.Checksum
import NativeExports.Image.Placement
import NativeExports.Image.Parsing
import NativeExports.Image.Reading
import NativeExports.Injection.Injector
import NativeExports.Injection.Settings
import NativeExports.Injection.Tools
import NativeExports.Library
import NativeExports.Listing.Decoding
import NativeExports.Listing.Directives
import NativeExports.Logged
import NativeExports.Main
import NativeExports.Metadata.AttributeValue
import NativeExports.Metadata.BlobHeap
import NativeExports.Metadata.Block
import NativeExports.Metadata.CliHeader
import NativeExports.Metadata.CodedIndex
import NativeExports.Metadata.CodedKind
import NativeExports.Metadata.Column
import NativeExports.Metadata.MethodFlags
import NativeExports.Metadata.Root
import NativeExports.Metadata.SignatureColumns
import NativeExports.Metadata.StringHeap
import NativeExports.Metadata.Table
import NativeExports.Metadata.Tables
import NativeExports.Metadata.TablesStream
import NativeExports.Metadata.Token
import NativeExports.Metadata.Widths
import NativeExports.Proofs.Building
import NativeExports.Proofs.Code.BodyLayout
import NativeExports.Proofs.Code.BodyPatches
import NativeExports.Proofs.Code.Layout
import NativeExports.Proofs.Code.Patching
import NativeExports.Proofs.Code.Replacement
import NativeExports.Proofs.Code.Tiling
import NativeExports.Proofs.CodedIndices
import NativeExports.Proofs.Compressed
import NativeExports.Proofs.Editing.Additions
import NativeExports.Proofs.Editing.Consistent
import NativeExports.Proofs.Editing.HeapOffsets
import NativeExports.Proofs.Editing.InsertedMethods
import NativeExports.Proofs.Editing.KeyOrder
import NativeExports.Proofs.Editing.Methods
import NativeExports.Proofs.Editing.Renumbered
import NativeExports.Proofs.Editing.Runs
import NativeExports.Proofs.Editing.Session
import NativeExports.Proofs.Editing.SortedAssembly
import NativeExports.Proofs.Editing.Sorting
import NativeExports.Proofs.Export.AddedMarkers
import NativeExports.Proofs.Export.Candidates
import NativeExports.Proofs.Export.Discovery
import NativeExports.Proofs.Export.Finishing
import NativeExports.Proofs.Export.FirstMarkers
import NativeExports.Proofs.Export.Forwarding
import NativeExports.Proofs.Export.MarkerRemoval
import NativeExports.Proofs.Export.Markers
import NativeExports.Proofs.Export.RemovalPlan
import NativeExports.Proofs.Export.Wrapping
import NativeExports.Proofs.Host.Faults
import NativeExports.Proofs.Host.Output
import NativeExports.Proofs.Image.Addresses
import NativeExports.Proofs.Image.Appending
import NativeExports.Proofs.Image.Checksum
import NativeExports.Proofs.Injection.Calls
import NativeExports.Proofs.Listing.Encodings
import NativeExports.Proofs.Listing.Files
import NativeExports.Proofs.Listing.Insertion
import NativeExports.Proofs.Listing.Nesting
import NativeExports.Proofs.LiveCandidates
import NativeExports.Proofs.Metadata.Block
import NativeExports.Proofs.Metadata.CliHeader
import NativeExports.Proofs.Metadata.CodedRows
import NativeExports.Proofs.Metadata.StoredAgain
import NativeExports.Proofs.Metadata.StoredColumns
import NativeExports.Proofs.Metadata.TablesStream
import NativeExports.Proofs.Outcome
import NativeExports.Proofs.Pieces
import NativeExports.Proofs.Reachability
import NativeExports.Proofs.Readers
import NativeExports.Proofs.References
import NativeExports.Proofs.Renumbering.AddedBodies
import NativeExports.Proofs.Renumbering.Bijections
import NativeExports.Proofs.Renumbering.Bodies
import NativeExports.Proofs.Renumbering.Columns
import NativeExports.Proofs.Renumbering.InsertedRows
import NativeExports.Proofs.Renumbering.Lookups
import NativeExports.Proofs.Renumbering.Meaning
import NativeExports.Proofs.Renumbering.Members
import NativeExports.Proofs.Renumbering.MovedSignatures
import NativeExports.Proofs.Renumbering.Preservation
import NativeExports.Proofs.Renumbering.Refusal
import NativeExports.Proofs.Renumbering.Removal
import NativeExports.Proofs.Renumbering.RowNumbers
import NativeExports.Proofs.Renumbering.Rows
import NativeExports.Proofs.Renumbering.SharedSignatures
import NativeExports.Proofs.Renumbering.Signatures
import NativeExports.Proofs.Renumbering.Steps
import NativeExports.Proofs.Renumbering.StoredTokens
import NativeExports.Proofs.Scopes
import NativeExports.Proofs.Signature.Cutting
import NativeExports.Proofs.Signature.Grammar
import NativeExports.Proofs.Signature.Levels
import NativeExports.Proofs.Signature.Mapping
import NativeExports.Proofs.Signature.Nesting
import NativeExports.Proofs.Signature.Reading
import NativeExports.Proofs.Signature.Replacement
import NativeExports.Proofs.Signature.RoundTrip
import NativeExports.Proofs.Signature.Tokens
import NativeExports.Proofs.Strings
import NativeExports.Proofs.Tables
import NativeExports.Proofs.Text.Decoding
import NativeExports.Proofs.Text.Lines
import NativeExports.Proofs.Text.Utf8
import NativeExports.Proofs.Uses
import NativeExports.Proofs.WellFormed
import NativeExports.Proofs.Windows
import NativeExports.Proofs.Writing.Content
import NativeExports.Proofs.Writing.Filled
import NativeExports.Proofs.Writing.Filling
import NativeExports.Proofs.Writing.Headers
import NativeExports.Proofs.Writing.Written
import NativeExports.Renumbering
import NativeExports.Report.Failure
import NativeExports.Report.Injection
import NativeExports.Report.Inspection
import NativeExports.Report.Value
import NativeExports.Signature.Basic
import NativeExports.Signature.Element
import NativeExports.Signature.Pieces
import NativeExports.Signature.Reading
import NativeExports.Signature.Writing
import NativeExports.Text.Digits
import NativeExports.Text.DisplayWidth
import NativeExports.Text.Grid
import NativeExports.Text.Lines
import NativeExports.Text.Surrogates
import NativeExports.Text.Utf16
import NativeExports.Text.Utf8
