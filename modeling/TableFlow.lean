import TableFlow.Compile.Pipeline
import TableFlow.Json.Writer
import TableFlow.Pipeline.Schema
import TableFlow.Review
import TableFlow.TableQuery.Document
import TableFlow.Proofs.Columns
import TableFlow.Proofs.WellFormed
import TableFlow.Proofs.Connection
import TableFlow.Proofs.Coverage
import TableFlow.Proofs.Naming
import TableFlow.Proofs.Traces
import TableFlow.Proofs.Orientation
import TableFlow.Proofs.Tracking
import TableFlow.Proofs.Bases
import TableFlow.Proofs.Statements
import TableFlow.Proofs.RoundTrip
import TableFlow.Proofs.ScriptText
import TableFlow.Proofs.Delimiters
import TableFlow.Proofs.Copies
import TableFlow.Proofs.Growth
import TableFlow.Proofs.Numbering
import TableFlow.Proofs.Edits
import TableFlow.Proofs.Respelling
import TableFlow.Proofs.Interpolation
import TableFlow.Proofs.Junctions
import TableFlow.Proofs.JoinedRows
import TableFlow.Proofs.Flattening
import TableFlow.Proofs.Parameters
import TableFlow.Proofs.Predicates
import TableFlow.Proofs.FlatRelations
import TableFlow.Proofs.AddedTables
import TableFlow.Proofs.RowRanges
import TableFlow.Proofs.OpenContainers
import TableFlow.Proofs.WrittenConditions
import TableFlow.Proofs.Integers
