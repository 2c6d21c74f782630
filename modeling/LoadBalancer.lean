import LoadBalancer.Machine
import LoadBalancer.Dict
import LoadBalancer.HeapQueue
import LoadBalancer.Cyclic
import LoadBalancer.ListSearch
import LoadBalancer.WhileLoop
import LoadBalancer.PyText
import LoadBalancer.Router
import LoadBalancer.LeastConnections
import LoadBalancer.Availability
import LoadBalancer.HeapGrowth
import LoadBalancer.Fairness
import LoadBalancer.RoundRobin
import LoadBalancer.Rotation
import LoadBalancer.HealthChecker
import LoadBalancer.Config
import LoadBalancer.HttpParser
import LoadBalancer.Requests
import LoadBalancer.ForwardedRequest
import LoadBalancer.ForwardedFields
import LoadBalancer.ForwardedFor
import LoadBalancer.TransferCodings
import LoadBalancer.Sockets
import LoadBalancer.Connection
import LoadBalancer.Outcome
import LoadBalancer.Fleet
import LoadBalancer.HandlerRules
import LoadBalancer.Slots
import LoadBalancer.Accounting
import LoadBalancer.Relay
import LoadBalancer.Chunked
import LoadBalancer.ChunkScan
import LoadBalancer.ChunkGrammar
import LoadBalancer.Framing
import LoadBalancer.WholeResponse
import LoadBalancer.EndOfStream
import LoadBalancer.Selector
import LoadBalancer.Reactor
import LoadBalancer.ReactorRules
import LoadBalancer.Bookkeeping
import LoadBalancer.Deadlines
import LoadBalancer.BackendSocks
import LoadBalancer.Interest
import LoadBalancer.Wiring
import LoadBalancer.Registrations
import LoadBalancer.Descriptors
import LoadBalancer.Survival
import LoadBalancer.Paths
import LoadBalancer.Protocol
import LoadBalancer.ProtocolRuns
import LoadBalancer.Answers
import LoadBalancer.RefreshedDeadlines
import LoadBalancer.DeadlineEntries
import LoadBalancer.Attempts
import LoadBalancer.RequestCuts
import LoadBalancer.Transparency
import LoadBalancer.ResponseCuts
import LoadBalancer.HeaderOnly
import LoadBalancer.RequestEnds
import LoadBalancer.Lifecycle
import LoadBalancer.Clocks
import LoadBalancer.Patience
import LoadBalancer.RouterRules
import LoadBalancer.Quarantine
import LoadBalancer.Routing
import LoadBalancer.Lifetimes
import LoadBalancer.Supervisor
import LoadBalancer.Teardown
import LoadBalancer.CommandLine
import LoadBalancer.Dispatcher
