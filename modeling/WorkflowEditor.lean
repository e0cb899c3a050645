import WorkflowEditor.Graph.Edit
import WorkflowEditor.Main
import WorkflowEditor.Scope.Cache
import WorkflowEditor.Proofs.LossyText
import WorkflowEditor.Proofs.StreamReading
import WorkflowEditor.Proofs.FollowReplay
import WorkflowEditor.Proofs.PortLayout
import WorkflowEditor.Proofs.WellFormed
import WorkflowEditor.Proofs.Outcome
import WorkflowEditor.Proofs.Rewiring
import WorkflowEditor.Proofs.Placement
import WorkflowEditor.Proofs.Editing
import WorkflowEditor.Proofs.Loading
import WorkflowEditor.Proofs.SaveReload
import WorkflowEditor.Proofs.BreadthFirst
import WorkflowEditor.Proofs.OfferedVariables
import WorkflowEditor.Proofs.Applied
import WorkflowEditor.Proofs.EdgeIds
import WorkflowEditor.Proofs.CacheFreshness
import WorkflowEditor.Proofs.InPlace
import WorkflowEditor.Proofs.Revision
import WorkflowEditor.Proofs.DepthFirst
import WorkflowEditor.Proofs.Validity
import WorkflowEditor.Proofs.Entering
import WorkflowEditor.Proofs.Entries
import WorkflowEditor.Proofs.KeyOrder
import WorkflowEditor.Proofs.Settling
import WorkflowEditor.Proofs.TextInBase64
import WorkflowEditor.Proofs.StoredShape
import WorkflowEditor.Proofs.Resaving
import WorkflowEditor.Proofs.EditedForms
import WorkflowEditor.Proofs.RunTraces
import WorkflowEditor.Proofs.SavedDocument
import WorkflowEditor.Proofs.Mirror
import WorkflowEditor.Proofs.Listeners
import WorkflowEditor.Proofs.ValidLoading
import WorkflowEditor.Proofs.RunEndings
import WorkflowEditor.Proofs.PickedTypes
import WorkflowEditor.Proofs.Enclosure
import WorkflowEditor.Proofs.WireFormat
import WorkflowEditor.Proofs.BranchChanges
import WorkflowEditor.Proofs.RequiredInputs
import WorkflowEditor.Proofs.ChatHistory
import WorkflowEditor.Proofs.BranchUndo
import WorkflowEditor.Proofs.Overwriting
import WorkflowEditor.Proofs.LastWrite
import WorkflowEditor.Proofs.TypeChains
import WorkflowEditor.Proofs.TypeSearch
import WorkflowEditor.Proofs.LoadedGeometry
import WorkflowEditor.Proofs.Landing
import WorkflowEditor.Proofs.Removal
import WorkflowEditor.Proofs.ConnectionRules
import WorkflowEditor.Proofs.ClosedPaths
import WorkflowEditor.Proofs.NearestFirst
import WorkflowEditor.Proofs.EdgeNumbers
import WorkflowEditor.Proofs.EdgeOrder
import WorkflowEditor.Proofs.Ineffective
import WorkflowEditor.Proofs.Selectors
import WorkflowEditor.Proofs.CompletedForms
import WorkflowEditor.Proofs.ChatText
import WorkflowEditor.Proofs.Rereading
import WorkflowEditor.Proofs.ClaimedEntries
import WorkflowEditor.Proofs.WrittenDocument
