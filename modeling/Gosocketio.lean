import Gosocketio.Proofs.Payload
import Gosocketio.Proofs.Codec
import Gosocketio.Lib.Pool
import Gosocketio.Lib.Runs
import Gosocketio.Sanity.Binary
import Gosocketio.Proofs.Framing
import Gosocketio.Spec.Adapter
import Gosocketio.Spec.Server
import Gosocketio.Sanity.Packet
import Gosocketio.Sanity.Server
import Gosocketio.Proofs.Connections
import Gosocketio.Spec.Broadcast
import Gosocketio.Spec.Sections
import Gosocketio.Spec.Goroutines
import Gosocketio.Sanity.Goroutines
import Gosocketio.Proofs.Successor
import Gosocketio.Proofs.Sections
import Gosocketio.Proofs.Broadcast
import Gosocketio.Proofs.Isolation
import Gosocketio.Lib.Outbox
import Gosocketio.Spec.Client
import Gosocketio.Sanity.Client
import Gosocketio.Proofs.SendOrder
import Gosocketio.Proofs.PostOverlap
import Gosocketio.Proofs.ClientUpgrade
import Gosocketio.Spec.EngineSocket
import Gosocketio.Lib.Parcel
import Gosocketio.Sanity.EngineSocket
import Gosocketio.Proofs.Routing
import Gosocketio.Proofs.InTransit
import Gosocketio.Proofs.Delivery
import Gosocketio.Proofs.Stream
import Gosocketio.Proofs.Closing
import Gosocketio.Spec.SioClient
import Gosocketio.Spec.Exchange
import Gosocketio.Sanity.SioClient
import Gosocketio.Sanity.Exchange
import Gosocketio.Proofs.Acknowledgements
import Gosocketio.Proofs.Agreement
import Gosocketio.Spec.Reconnect
import Gosocketio.Sanity.Reconnect
import Gosocketio.Proofs.Attachment
import Gosocketio.Proofs.Finality
import Gosocketio.Proofs.SingleLoop
import Gosocketio.Proofs.Membership
import Gosocketio.Proofs.Audience
import Gosocketio.Proofs.HandlersOnce
import Gosocketio.Spec.Dispatch
import Gosocketio.Proofs.AfterDisconnect
import Gosocketio.Proofs.Rejection
import Gosocketio.Lib.Petri
import Gosocketio.Sanity.Polling
import Gosocketio.Proofs.PollSlot
import Gosocketio.Proofs.PollOrder
import Gosocketio.Lib.Stacks
import Gosocketio.Spec.Session
import Gosocketio.Sanity.Session
import Gosocketio.Proofs.WritePath
import Gosocketio.Proofs.Wakeup
import Gosocketio.Proofs.Graceful
import Gosocketio.Proofs.Rollback
import Gosocketio.Proofs.Replies
import Gosocketio.Proofs.Arguments
import Gosocketio.Proofs.OneAck
import Gosocketio.Proofs.UnknownAck
import Gosocketio.Proofs.LatePost
import Gosocketio.Proofs.LateData
import Gosocketio.Spec.Heartbeat
import Gosocketio.Sanity.Heartbeat
import Gosocketio.Proofs.Candidates
import Gosocketio.Proofs.PingTimeout
import Gosocketio.Proofs.Lifecycle
import Gosocketio.Sanity.ReadLoops
import Gosocketio.Proofs.Stranded
import Gosocketio.Proofs.Decoding
import Gosocketio.Proofs.Deconstruction
import Gosocketio.Proofs.PayloadLimit
import Gosocketio.Proofs.Reserved
import Gosocketio.Proofs.AckTable
import Gosocketio.Proofs.Emitting
import Gosocketio.Proofs.BodyGate
import Gosocketio.Proofs.Reconstructor
import Gosocketio.Spec.Rooms
import Gosocketio.Proofs.Rooms
import Gosocketio.Proofs.Reports
import Gosocketio.Lib.CondVar
import Gosocketio.Proofs.PacketQueue
import Gosocketio.Proofs.Pulse
import Gosocketio.Proofs.Clients
import Gosocketio.Proofs.Disconnections
import Gosocketio.Proofs.Registry
import Gosocketio.Proofs.Wire
import Gosocketio.Proofs.Dial
