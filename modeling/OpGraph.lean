import OpGraph.Operator.Script
import OpGraph.Plan.Build
import OpGraph.Plan.Run
import OpGraph.Proofs.Accounting
import OpGraph.Proofs.Admission
import OpGraph.Proofs.Blame
import OpGraph.Proofs.Constants
import OpGraph.Proofs.Crossing
import OpGraph.Proofs.Delivery
import OpGraph.Proofs.Dispatched
import OpGraph.Proofs.Filling
import OpGraph.Proofs.Flushed
import OpGraph.Proofs.Inquiries
import OpGraph.Proofs.Learning
import OpGraph.Proofs.Lives
import OpGraph.Proofs.Offsets
import OpGraph.Proofs.Permuted
import OpGraph.Proofs.Placement
import OpGraph.Proofs.Precedence
import OpGraph.Proofs.Progress
import OpGraph.Proofs.Publishing
import OpGraph.Proofs.Ranking
import OpGraph.Proofs.Resolving
import OpGraph.Proofs.Uncovered
import OpGraph.Proofs.Unordered
import OpGraph.Session.Reader
import OpGraph.Stream.Bench
