import LayerGraph.Document.Schema
import LayerGraph.Session
import LayerGraph.Proofs.Links
import LayerGraph.Proofs.Order
import LayerGraph.Proofs.Emission
import LayerGraph.Proofs.Drawing
import LayerGraph.Proofs.Overlay
import LayerGraph.Proofs.Agreement
import LayerGraph.Proofs.Gate
import LayerGraph.Proofs.ModelShapes
import LayerGraph.Proofs.ModelValues
import LayerGraph.Proofs.Editing
import LayerGraph.Proofs.DefaultInputs
import LayerGraph.Proofs.Retouch
import LayerGraph.Proofs.ShapeEquations
import LayerGraph.Proofs.WriteBack
import LayerGraph.Proofs.Applied
import LayerGraph.Proofs.ListingOrder
import LayerGraph.Proofs.PrunedProgram
import LayerGraph.Proofs.Returned
import LayerGraph.Proofs.NodeOrder
import LayerGraph.Proofs.RenamedProgram
import LayerGraph.Proofs.RoundTrip
import LayerGraph.Proofs.Workflow
import LayerGraph.Proofs.AnyOrder
import LayerGraph.Proofs.Defaults
import LayerGraph.Proofs.ModelClass
import LayerGraph.Proofs.EmissionOrder
import LayerGraph.Proofs.ClosingEdge
import LayerGraph.Proofs.Committing
import LayerGraph.Proofs.Upstream
import LayerGraph.Proofs.Concatenation
import LayerGraph.Proofs.Identifiers
import LayerGraph.Proofs.Literals
import LayerGraph.Proofs.Layouts
import LayerGraph.Proofs.SingleAssignment
import LayerGraph.Proofs.Constructors
import LayerGraph.Proofs.CyclePasses
import LayerGraph.Proofs.TopologicalPass
import LayerGraph.Proofs.PipelineOrder
import LayerGraph.Proofs.WindowPositions
import LayerGraph.Proofs.Untrapped
