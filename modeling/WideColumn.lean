import WideColumn.Composite.Builder
import WideColumn.Document
import WideColumn.Numbering
import WideColumn.Plan.Cells
import WideColumn.Plan.Compile
import WideColumn.Plan.Index
import WideColumn.Plan.Keys
import WideColumn.Plan.Reconstruct
import WideColumn.Proofs.ByteOrder
import WideColumn.Proofs.Composite.Format
import WideColumn.Proofs.Composite.Truncation
import WideColumn.Proofs.Numbering
import WideColumn.Proofs.Restriction
import WideColumn.Proofs.Conditions
import WideColumn.Proofs.Binding
import WideColumn.Proofs.Grammar
import WideColumn.Proofs.Compile
import WideColumn.Proofs.Acceptance
import WideColumn.Proofs.CellParts
import WideColumn.Proofs.CellScan
import WideColumn.Proofs.Access
import WideColumn.Proofs.Runs
import WideColumn.Proofs.Storage
import WideColumn.Proofs.LogicalRow
import WideColumn.Proofs.Partitions
import WideColumn.Proofs.Reconstruction
import WideColumn.Proofs.Pushdown
import WideColumn.Proofs.Fetch
import WideColumn.Proofs.Text.Utf8
import WideColumn.Proofs.Text.Utf8.Reading
import WideColumn.Proofs.Text.Hex
import WideColumn.Proofs.Text.Integer
import WideColumn.Proofs.TwosComplement
import WideColumn.Proofs.Counter
import WideColumn.Proofs.Value
import WideColumn.Proofs.Comparisons
import WideColumn.Proofs.IndexScan
import WideColumn.Proofs.KeyScan
import WideColumn.Proofs.Correspondence
import WideColumn.Proofs.Answers
import WideColumn.Proofs.Literals
import WideColumn.Proofs.ExactNames
import WideColumn.Proofs.ValueOrder
import WideColumn.Proofs.Tombstones
import WideColumn.Proofs.SelectedFields
import WideColumn.Proofs.Batch
import WideColumn.Proofs.ConditionOrder
import WideColumn.Proofs.RowOrder
import WideColumn.Proofs.Projection
import WideColumn.Proofs.ClusteringPrefix
import WideColumn.Proofs.Spelling
import WideColumn.Proofs.ClusteringOrder
import WideColumn.Proofs.PlainSlice
import WideColumn.Proofs.Failure
import WideColumn.Proofs.CellValue
import WideColumn.Proofs.Grouping
import WideColumn.Proofs.Json.Body
import WideColumn.Proofs.Json.Token
import WideColumn.Proofs.Json.RoundTrip
import WideColumn.Proofs.Document
