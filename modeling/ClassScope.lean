import ClassScope.Exemption
import ClassScope.Main
import ClassScope.Proofs.ClassList
import ClassScope.Proofs.Enclosure
import ClassScope.Proofs.Ledger
import ClassScope.Proofs.Splice
import ClassScope.Proofs.Splice.Undo
import ClassScope.Proofs.ClassPosition
import ClassScope.Proofs.Coverage
import ClassScope.Proofs.Composition
import ClassScope.Proofs.Evaluation
import ClassScope.Proofs.Exemption
import ClassScope.Proofs.Grounding
import ClassScope.Proofs.Independence
import ClassScope.Proofs.Interpolation
import ClassScope.Proofs.Mark.Found
import ClassScope.Proofs.Mark.Transparency
import ClassScope.Proofs.Precedence
import ClassScope.Proofs.Run.Fault
import ClassScope.Proofs.Run.InPlace
import ClassScope.Proofs.Run.Mirror
import ClassScope.Proofs.Run.Schedule
import ClassScope.Proofs.RunTimeValue
import ClassScope.Proofs.Seams
import ClassScope.Proofs.Sweep.Agreement
import ClassScope.Proofs.Sweep.Closing
import ClassScope.Proofs.Sweep.Conservation
import ClassScope.Proofs.Sweep.Overlay
import ClassScope.Proofs.Unchanged
import ClassScope.Proofs.Query
import ClassScope.Proofs.Run.Report
import ClassScope.Proofs.Sweep.Line
import ClassScope.Proofs.PathOrder
import ClassScope.Proofs.Discovery.Exact
import ClassScope.Proofs.ClassList.NormalForm
import ClassScope.Proofs.Settings.Layer
import ClassScope.Proofs.Fragment
import ClassScope.Proofs.Settings.Document
import ClassScope.Proofs.Invocation
import ClassScope.Proofs.Padding
import ClassScope.Proofs.Text.Trim
