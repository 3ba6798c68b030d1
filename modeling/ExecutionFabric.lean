import ExecutionFabric.Library.StepMachine
import ExecutionFabric.Library.WriteOnce
import ExecutionFabric.Library.Collections
import ExecutionFabric.Library.Reading
import ExecutionFabric.Library.Interruption
import ExecutionFabric.Library.ShiftRegister
import ExecutionFabric.Library.Independence
import ExecutionFabric.Library.Layout
import ExecutionFabric.Library.SecureHash
import ExecutionFabric.Library.Queues
import ExecutionFabric.Library.Dialogue
import ExecutionFabric.Library.Scatter
import ExecutionFabric.Identity
import ExecutionFabric.Identity.Parsing
import ExecutionFabric.Generation
import ExecutionFabric.StateMachine
import ExecutionFabric.Record
import ExecutionFabric.Engine
import ExecutionFabric.Engine.Effect
import ExecutionFabric.Engine.Run
import ExecutionFabric.Engine.Authority
import ExecutionFabric.Engine.Commit
import ExecutionFabric.Engine.Enabled
import ExecutionFabric.Engine.Attempts
import ExecutionFabric.Engine.Coherence
import ExecutionFabric.Engine.Lineage
import ExecutionFabric.Engine.Rejection
import ExecutionFabric.Engine.Honour
import ExecutionFabric.Engine.Revocation
import ExecutionFabric.Engine.Issuance
import ExecutionFabric.Engine.Tenure
import ExecutionFabric.Engine.Validation
import ExecutionFabric.Engine.Dispatching
import ExecutionFabric.Engine.Overtaking
import ExecutionFabric.Engine.Racing
import ExecutionFabric.Engine.Escape
import ExecutionFabric.Engine.Independence
import ExecutionFabric.Binary
import ExecutionFabric.Binary.Calls
import ExecutionFabric.Memory
import ExecutionFabric.Checksum
import ExecutionFabric.Persistence
import ExecutionFabric.Persistence.Spelling
import ExecutionFabric.Persistence.RoundTrip
import ExecutionFabric.Persistence.Canonical
import ExecutionFabric.Persistence.Bounds
import ExecutionFabric.Persistence.Impossible
import ExecutionFabric.Persistence.Truncation
import ExecutionFabric.Persistence.Corruption
import ExecutionFabric.Persistence.Survival
import ExecutionFabric.Persistence.Atomicity
import ExecutionFabric.Digest
import ExecutionFabric.Digest.Conformance
import ExecutionFabric.Digest.Buffer
import ExecutionFabric.Protocol
import ExecutionFabric.Protocol.Payloads
import ExecutionFabric.Protocol.Targets
import ExecutionFabric.Protocol.Frame
import ExecutionFabric.Protocol.Corruption
import ExecutionFabric.Protocol.Bounds
import ExecutionFabric.Protocol.Transport
import ExecutionFabric.Protocol.Channel
import ExecutionFabric.Worker
import ExecutionFabric.Controller
import ExecutionFabric.Cuda
import ExecutionFabric.Cuda.Driver
import ExecutionFabric.Cuda.Device
import ExecutionFabric.Coordinator
import ExecutionFabric.Coordinator.Turns
import ExecutionFabric.Coordinator.Requests
import ExecutionFabric.Coordinator.Durability
import ExecutionFabric.Coordinator.Restart
import ExecutionFabric.Coordinator.Epochs
import ExecutionFabric.Coordinator.Recovery
import ExecutionFabric.Coordinator.WorkerLoss
import ExecutionFabric.Coordinator.Cancellation
import ExecutionFabric.Coordinator.Process
import ExecutionFabric.Coordinator.Delivery
import ExecutionFabric.Coordinator.Closing
import ExecutionFabric.Coordinator.Stopping
import ExecutionFabric.Coordinator.Replies
import ExecutionFabric.Coordinator.Sessions
import ExecutionFabric.Coordinator.Tickets
import ExecutionFabric.Coordinator.Finality
import ExecutionFabric.Fabric
import ExecutionFabric.Fabric.Clients
import ExecutionFabric.Fabric.Reports
import ExecutionFabric.Fabric.Lives
