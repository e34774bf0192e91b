import FieldLine.Main
import FieldLine.Proofs.Document.FirstOfMany
import FieldLine.Proofs.Document.LineOrder
import FieldLine.Proofs.Document.NullMarks
import FieldLine.Proofs.Document.Refusals
import FieldLine.Proofs.Document.Translation
import FieldLine.Proofs.Outline.Resolving
import FieldLine.Proofs.Violation.Presentation
import FieldLine.Proofs.Violation.Report
import FieldLine.Proofs.Violation.Settings
import FieldLine.Proofs.Command.Exit
import FieldLine.Proofs.Config.Saving
import FieldLine.Proofs.JsonDocument.Parsing
import FieldLine.Proofs.Path.Printing
import FieldLine.Proofs.Violation.Independence
import FieldLine.Proofs.Walk.Composition
import FieldLine.Proofs.Walk.LineOrigin
import FieldLine.Proofs.Path.Joining
