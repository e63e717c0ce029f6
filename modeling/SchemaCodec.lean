import SchemaCodec.Annotation.Store
import SchemaCodec.Catalog.Descriptor
import SchemaCodec.Catalog.Standard
import SchemaCodec.Command.Run
import SchemaCodec.Json.Document
import SchemaCodec.Json.Printer
import SchemaCodec.Log
import SchemaCodec.Main
import SchemaCodec.Numeric.Layout
import SchemaCodec.Projection.Read
import SchemaCodec.Projection.Write
import SchemaCodec.Proofs.Annotation.Embedding
import SchemaCodec.Proofs.Json.RoundTrip
import SchemaCodec.Proofs.Json.Scanning
import SchemaCodec.Proofs.Projection.Printing
import SchemaCodec.Proofs.Projection.Refinement
import SchemaCodec.Proofs.Projection.RoundTrip
import SchemaCodec.Proofs.Registry.Acceptance
import SchemaCodec.Proofs.Registry.Lookup
import SchemaCodec.Proofs.Registry.Presence
import SchemaCodec.Proofs.Registry.Restriction
import SchemaCodec.Proofs.Registry.Transcoding
import SchemaCodec.Proofs.Wire.Concatenation
import SchemaCodec.Proofs.Wire.Decomposition
import SchemaCodec.Proofs.Wire.Foreign
import SchemaCodec.Proofs.Wire.Grammar
import SchemaCodec.Proofs.Wire.RoundTrip
import SchemaCodec.Registry.Store
import SchemaCodec.Row.Text
import SchemaCodec.Schema.Inspect
import SchemaCodec.Settings.File
import SchemaCodec.Text.Hex
import SchemaCodec.Text.Quoted
import SchemaCodec.Wire.Cursor
import SchemaCodec.Wire.Decode
import SchemaCodec.Wire.Encode
import SchemaCodec.Wire.Format
import SchemaCodec.Proofs.Projection.Typing
import SchemaCodec.Proofs.Projection.Pruning
import SchemaCodec.Proofs.Projection.UnknownKeys
import SchemaCodec.Proofs.Wire.Blame
import SchemaCodec.Proofs.Wire.Failing
import SchemaCodec.Proofs.Wire.Faults
import SchemaCodec.Proofs.Wire.Reordering
import SchemaCodec.Proofs.Wire.Alike
import SchemaCodec.Proofs.Wire.EndMarkers
import SchemaCodec.Proofs.Schema.Entries
import SchemaCodec.Proofs.Wire.Spelling
import SchemaCodec.Proofs.Wire.Truncation
import SchemaCodec.Proofs.Wire.Framing
import SchemaCodec.Proofs.Annotation.Extraction
import SchemaCodec.Proofs.Numeric.Rounding
import SchemaCodec.Proofs.Projection.Integers
import SchemaCodec.Proofs.Numeric.Value
import SchemaCodec.Proofs.Projection.Enumerations
import SchemaCodec.Registry.Process
import SchemaCodec.Proofs.Annotation.History
import SchemaCodec.Proofs.Row.Masks
import SchemaCodec.Proofs.Row.Conversion
import SchemaCodec.Proofs.Registry.Installation
import SchemaCodec.Proofs.Wire.Bounds
import SchemaCodec.Proofs.Wire.Spans
import SchemaCodec.Proofs.Command.HexRoundTrip
