import SqlDump.FileTree
import SqlDump.Main
import SqlDump.Proofs.Catalog.Export
import SqlDump.Proofs.Catalog.Grouped
import SqlDump.Proofs.Command.Batch
import SqlDump.Proofs.Guard.Skip
import SqlDump.Proofs.Lexer.Growth
import SqlDump.Proofs.Line.Pushes
import SqlDump.Proofs.Offset.Failure
import SqlDump.Proofs.Pipeline.Exports
import SqlDump.Proofs.Pipeline.Placeholder
import SqlDump.Proofs.Pipeline.Presence
import SqlDump.Proofs.Pipeline.Removal
import SqlDump.Proofs.Progress.Reports
import SqlDump.Proofs.Report.Prediction
import SqlDump.Proofs.Segment.HeldBack
import SqlDump.Proofs.Session.DropLines
import SqlDump.Proofs.Session.FixedPoint
import SqlDump.Proofs.Session.Sink
import SqlDump.Proofs.Statement.Remainder
import SqlDump.Proofs.Unwrap.Conservation
import SqlDump.Proofs.Unwrap.Decision
import SqlDump.Proofs.Unwrap.Delimiter
import SqlDump.Proofs.Unwrap.Seams
import SqlDump.Proofs.Warning.Distinct
