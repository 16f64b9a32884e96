import FunctionGraph.Proofs.Axis.Frame
import FunctionGraph.Proofs.Axis.Multiples
import FunctionGraph.Proofs.Axis.TypedBounds
import FunctionGraph.Proofs.Curve.Gaps
import FunctionGraph.Proofs.Curve.Marks
import FunctionGraph.Proofs.Curve.Runs
import FunctionGraph.Proofs.Formula.Assignment
import FunctionGraph.Proofs.Formula.Defects
import FunctionGraph.Proofs.Formula.DescentOutcome
import FunctionGraph.Proofs.Formula.InputIndependence
import FunctionGraph.Proofs.Formula.Notation
import FunctionGraph.Proofs.Formula.Refusals
import FunctionGraph.Proofs.Logging.LastRequest
import FunctionGraph.Proofs.Number.ExactRounding
import FunctionGraph.Proofs.Plot.LastPoint
import FunctionGraph.Proofs.Plot.LeftToRight
import FunctionGraph.Proofs.Plot.MachineRuns
import FunctionGraph.Proofs.Plot.Separation
import FunctionGraph.Proofs.Plot.Showable
import FunctionGraph.Proofs.Screen.Freshness
import FunctionGraph.Proofs.Screen.Markers
import FunctionGraph.Proofs.Screen.Rows
import FunctionGraph.Proofs.Screen.StoredBounds
import FunctionGraph.Screen.Launch
