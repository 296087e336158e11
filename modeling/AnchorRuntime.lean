import AnchorRuntime.AtMostOnce
import AnchorRuntime.Memory
import AnchorRuntime.Queue
import AnchorRuntime.Overlap
import AnchorRuntime.DoubleStart
import AnchorRuntime.Guards
import AnchorRuntime.Outliving
import AnchorRuntime.Finality
import AnchorRuntime.Cancellation
import AnchorRuntime.Billing
import AnchorRuntime.Breaches
import AnchorRuntime.Terminal
import AnchorRuntime.Escalation
import AnchorRuntime.DynamoSubmit
import AnchorRuntime.DynamoLease
import AnchorRuntime.Submissions
import AnchorRuntime.RowCache
import AnchorRuntime.Endings
import AnchorRuntime.SideEffects
import AnchorRuntime.Audit
import AnchorRuntime.Signals
import AnchorRuntime.Invoke
import AnchorRuntime.Json
import AnchorRuntime.DynamoCodec
import AnchorRuntime.DynamoListing
import AnchorRuntime.WorkerLoop
import AnchorRuntime.LeaseAgreement
import AnchorRuntime.CrashWindow
import AnchorRuntime.FanOut
import AnchorRuntime.StoreAgreement
import AnchorRuntime.Identifiers
import AnchorRuntime.Layout
import AnchorRuntime.Absorbing
import AnchorRuntime.FailedSteps
import AnchorRuntime.Ceilings
import AnchorRuntime.Takeover
import AnchorRuntime.Trajectory
import AnchorRuntime.Alignment
import AnchorRuntime.Sites
import AnchorRuntime.Refunds
import AnchorRuntime.Isolation
import AnchorRuntime.Leases
import AnchorRuntime.Waiting
