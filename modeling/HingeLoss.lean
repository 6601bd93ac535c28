import HingeLoss.Main
import HingeLoss.Store.Interrupted
import HingeLoss.Proofs.Atom.Depth
import HingeLoss.Proofs.Atom.Partition
import HingeLoss.Proofs.Consensus.Approach
import HingeLoss.Proofs.Consensus.Component
import HingeLoss.Proofs.Consensus.Convergence
import HingeLoss.Proofs.Consensus.Incompatibility
import HingeLoss.Proofs.Consensus.Optimality
import HingeLoss.Proofs.Consensus.Proximal
import HingeLoss.Proofs.Consensus.Readings
import HingeLoss.Proofs.Database.Session
import HingeLoss.Proofs.Descent.CutOff
import HingeLoss.Proofs.Descent.Refinement
import HingeLoss.Proofs.Descent.Rejection
import HingeLoss.Proofs.Descent.Single
import HingeLoss.Proofs.Page.Slot
import HingeLoss.Proofs.Paged.Cancelled
import HingeLoss.Proofs.Paged.Closed
import HingeLoss.Proofs.Paged.Delivery
import HingeLoss.Proofs.Paged.InRange
import HingeLoss.Proofs.Paged.Interruption
import HingeLoss.Proofs.Paged.Refusal
import HingeLoss.Proofs.Paged.Residency
import HingeLoss.Proofs.Paged.Reweighing
import HingeLoss.Proofs.Paged.Split
import HingeLoss.Proofs.Paged.Sweep
import HingeLoss.Proofs.Paged.Transparency
import HingeLoss.Proofs.Paged.Vetted
import HingeLoss.Proofs.Rule.Registry
import HingeLoss.Proofs.Rule.Violation
import HingeLoss.Proofs.Solver.Evidence
import HingeLoss.Proofs.Solver.Reported
import HingeLoss.Proofs.Store.Concurrent
import HingeLoss.Proofs.Store.Connectivity
