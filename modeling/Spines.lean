import Spines.IntruTol.Pair
import Spines.RelFlood.Echo
import Spines.RelFlood.Failures
import Spines.Priority.Seen
import Spines.RelFlood.Splice
import Spines.Routing.Rounds
import Spines.Routing.SourceBased
import Spines.Routing.Trace
import Spines.StateFlood.Bounds
import Spines.StateFlood.Exchange
import Spines.StateFlood.Ownership
import Spines.Delivery.Source
import Spines.Sessions.Indexed
import Spines.Datagram.SessionAcks
import Spines.Outgoing.Streamed
import Spines.RelFlood.InStep
import Spines.RelFlood.Penalty
import Spines.IntruTol.KeyAgreement
import Spines.Reliable.Agreement
import Spines.Reliable.Closing
import Spines.Datagram.Flips
import Spines.Datagram.Realtime
import Spines.Client.Sockets
import Spines.IntruTol.Unpack
import Spines.IntruTol.Reintroduce
import Spines.IntruTol.FreshStart
import Spines.IntruTol.ConfHash
import Spines.IntruTol.DissemQueue
import Spines.Hello.Legs
import Spines.Hello.Loss
import Spines.Hello.Pings
import Spines.Hello.RateLimit
import Spines.Signing.Restamp
import Spines.Priority.Turns
import Spines.ReliableLink.Ends
import Spines.Client.Chosen
import Spines.Outgoing.Fragmented
import Spines.IntruTol.Tails
import Spines.Routing.Indexes
