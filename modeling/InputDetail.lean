import InputDetail.Analysis
import InputDetail.Expr.Draft
import InputDetail.Outline
import InputDetail.Proofs.Analysis.Alternation
import InputDetail.Proofs.Analysis.Concatenation
import InputDetail.Proofs.Analysis.Conflicts
import InputDetail.Proofs.Analysis.Drafts
import InputDetail.Proofs.Analysis.Exclusion
import InputDetail.Proofs.Analysis.Foresight
import InputDetail.Proofs.Analysis.Inwards
import InputDetail.Proofs.Analysis.Locality
import InputDetail.Proofs.Analysis.NodeTypes
import InputDetail.Proofs.Analysis.OrderIndependence
import InputDetail.Proofs.Analysis.Places
import InputDetail.Proofs.Analysis.PlainDocuments
import InputDetail.Proofs.Analysis.Representation
import InputDetail.Proofs.Analysis.Resolution
import InputDetail.Proofs.Analysis.Safety
import InputDetail.Proofs.Analysis.Separation
import InputDetail.Proofs.Analysis.Simulation
import InputDetail.Proofs.Analysis.Stability
import InputDetail.Proofs.Analysis.StrictRuns
import InputDetail.Proofs.Document.Trees
import InputDetail.Proofs.Document.Viability
import InputDetail.Proofs.Forest.Handles
import InputDetail.Proofs.Forest.Traversal
import InputDetail.Proofs.Name.Index
import InputDetail.Proofs.Outline.Faithful
import InputDetail.Proofs.Text.CaseStyles
import InputDetail.Proofs.Text.Shape
import InputDetail.Proofs.Types.Elements
import InputDetail.Proofs.Types.Finality
import InputDetail.Proofs.Types.Index
import InputDetail.Proofs.Types.Refusal
