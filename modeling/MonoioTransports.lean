import MonoioTransports.Pool.Proofs.Accounting
import MonoioTransports.Pool.Proofs.Insertion
import MonoioTransports.Pool.Proofs.Counting
import MonoioTransports.Pool.Proofs.Timed
import MonoioTransports.Pool.Proofs.Lanes
import MonoioTransports.Pool.Proofs.Reuse
import MonoioTransports.Http.Proofs.Boundary
import MonoioTransports.Http.Proofs.Abandoned
import MonoioTransports.Http.Proofs.Held
import MonoioTransports.Http.Proofs.Growth
import MonoioTransports.Http.Proofs.H1Connector
import MonoioTransports.Http.Proofs.HyperOrigin
import MonoioTransports.Http.Proofs.Lifecycle
import MonoioTransports.Http.Proofs.SameOrigin
import MonoioTransports.Http.Proofs.Exchanges
import MonoioTransports.Http.Proofs.Multiplex
import MonoioTransports.Http.Proofs.Negotiation
import MonoioTransports.Http.Proofs.Builders
import MonoioTransports.Http.Proofs.SingleFlight
import MonoioTransports.Http.Proofs.Senders
import MonoioTransports.Http.Proofs.Reuse
import MonoioTransports.Http.Proofs.Atomic
import MonoioTransports.Http.Proofs.RequestBody
import MonoioTransports.Http.Proofs.Response
import MonoioTransports.Http.Proofs.ReuseFlag
import MonoioTransports.Http.Proofs.IdleOrder
import MonoioTransports.Http.Proofs.Body
import MonoioTransports.Connectors.Proofs.Literal
import MonoioTransports.Connectors.Proofs.PollIo
