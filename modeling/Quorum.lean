import Quorum.Main
import Quorum.Cluster.Control
import Quorum.Storage.Switched
import Quorum.Proofs.Theorems.Safety
import Quorum.Proofs.Handlers.Deeds
import Quorum.Proofs.Run.Calls
import Quorum.Proofs.Theorems.WriteAhead
import Quorum.Proofs.Run.Clients
import Quorum.Proofs.Run.Ledger
import Quorum.Proofs.Theorems.Acknowledged
import Quorum.Proofs.Handlers.Timing
import Quorum.Proofs.Run.Watch
import Quorum.Proofs.Run.Clock
import Quorum.Proofs.Theorems.LeaseExclusivity
import Quorum.Proofs.Theorems.Tenure
import Quorum.Proofs.Theorems.FailedWrites
import Quorum.Proofs.Theorems.LeasePromise
import Quorum.Proofs.Theorems.ReadFreshness
import Quorum.Proofs.Theorems.ServingBarrier
import Quorum.Proofs.Theorems.VoteExclusivity
import Quorum.Proofs.Theorems.Recovery
import Quorum.Proofs.Theorems.Interchange
import Quorum.Proofs.Theorems.InterruptedSaves
import Quorum.Proofs.Theorems.Redirects
import Quorum.Proofs.Theorems.Quiescence
import Quorum.Proofs.Theorems.Requests
import Quorum.Proofs.Theorems.Convergence
import Quorum.Proofs.Theorems.WireFormat
import Quorum.Proofs.Theorems.Merging
import Quorum.Proofs.Theorems.CommitRule
import Quorum.Proofs.Theorems.Redelivery
import Quorum.Proofs.Theorems.Application
import Quorum.Proofs.Theorems.VoteCount
import Quorum.Proofs.Theorems.Strangers
import Quorum.Proofs.Theorems.Overflow
import Quorum.Proofs.Theorems.LeaseWindow
import Quorum.Proofs.Theorems.DueTimers
import Quorum.Proofs.Theorems.LogFile
import Quorum.Proofs.Theorems.Console
