import AccessOrder.Session.Call
import AccessOrder.Session.Log
import AccessOrder.Sequence.Test
import AccessOrder.Options.Reading
import AccessOrder.Proofs.Pool.Exhaustion
import AccessOrder.Proofs.Pool.LastingReadiness
import AccessOrder.Proofs.Pool.Crossing
import AccessOrder.Proofs.Pool.Programs
import AccessOrder.Proofs.Pool.LateTasks
import AccessOrder.Proofs.Pool.Pinning
import AccessOrder.Proofs.Pool.Checks
import AccessOrder.Proofs.Pool.Finishing
import AccessOrder.Proofs.Queue.Linearization
import AccessOrder.Proofs.Queue.Service
import AccessOrder.Proofs.Handle.Wakeups
import AccessOrder.Proofs.Handle.Failures
import AccessOrder.Proofs.Task.Batches
import AccessOrder.Proofs.Sequence.Backings
import AccessOrder.Proofs.Pool.Contention
import AccessOrder.Proofs.Pool.Accounts
import AccessOrder.Proofs.Access.Validation
import AccessOrder.Proofs.Pool.Searches
import AccessOrder.Proofs.Options.Acceptance
import AccessOrder.Proofs.Barrier.Counting
import AccessOrder.Proofs.Options.Environment
import AccessOrder.Proofs.Sequence.Occupancy
import AccessOrder.Proofs.Barrier.Codec
import AccessOrder.Proofs.Thief.Period
