import CallTargets.Program.Script
import CallTargets.Proofs.Analysis.Report
import CallTargets.Proofs.Analysis.Linked
import CallTargets.Proofs.Class.Recorded
import CallTargets.Proofs.Class.Slots
import CallTargets.Proofs.Flow.Least
import CallTargets.Proofs.Flow.Origin
import CallTargets.Proofs.Graph.Calls
import CallTargets.Proofs.Key.Receiver
import CallTargets.Proofs.Key.Shapes
import CallTargets.Proofs.Layer.Initial
import CallTargets.Proofs.Layer.Reordered
import CallTargets.Proofs.Layer.Rounds
import CallTargets.Proofs.Layer.Whole
import CallTargets.Proofs.Lookup.Analysis
import CallTargets.Proofs.Program.Document
import CallTargets.Proofs.Program.Refused
import CallTargets.Proofs.Program.Uses
import CallTargets.Proofs.Symbol.ClassPath
import CallTargets.Proofs.Symbol.Nesting
import CallTargets.Proofs.Symbol.Words
import CallTargets.Proofs.Ty.Depth
