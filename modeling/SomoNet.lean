import SomoNet.BodyFraming
import SomoNet.BufferBounds
import SomoNet.ClientClose
import SomoNet.ClientLink
import SomoNet.ConnectedFlag
import SomoNet.Dispatch
import SomoNet.Endpoints
import SomoNet.Format
import SomoNet.Http.Assertions
import SomoNet.Http.Bodies
import SomoNet.Http.Boundary
import SomoNet.Http.Calls
import SomoNet.Http.Execute
import SomoNet.Http.HeaderLimit
import SomoNet.Http.HeaderLines
import SomoNet.Http.HeaderNames
import SomoNet.Http.Lockstep
import SomoNet.Http.Messages
import SomoNet.Http.Parser
import SomoNet.Http.ParserSpec
import SomoNet.Http.RequestLine
import SomoNet.Http.Stale
import SomoNet.Http.Url
import SomoNet.Http.UrlBounds
import SomoNet.Http.UrlHost
import SomoNet.Http.UrlParse
import SomoNet.Http.UrlRoundTrip
import SomoNet.Http.UrlText
import SomoNet.HttpDelivery
import SomoNet.HttpMessage
import SomoNet.HttpResponseDecode
import SomoNet.HttpSession
import SomoNet.InFlight
import SomoNet.Isolation
import SomoNet.Lib.CloseDelimited
import SomoNet.Lib.Leases
import SomoNet.Lib.Ledger
import SomoNet.Lib.Numerals
import SomoNet.Lib.Pieces
import SomoNet.Lib.Run
import SomoNet.Lib.SortedMap
import SomoNet.Lib.Walk
import SomoNet.Lifecycle
import SomoNet.LinkIds
import SomoNet.Loop
import SomoNet.LostConnections
import SomoNet.MemPool
import SomoNet.OneRequest
import SomoNet.OpenSessions
import SomoNet.Ownership
import SomoNet.PeerExpiry
import SomoNet.PeerLeases
import SomoNet.Pipelining
import SomoNet.PoolCapacity
import SomoNet.PoolRuns
import SomoNet.Reassembly
import SomoNet.Reconnects
import SomoNet.RecvBuffer
import SomoNet.RecvIsolation
import SomoNet.RecvStream
import SomoNet.Reentrancy
import SomoNet.Reported
import SomoNet.Segmentation
import SomoNet.SendPaths
import SomoNet.Sockets
import SomoNet.StreamGaps
import SomoNet.TcpLink
import SomoNet.TcpLinkSpec
import SomoNet.Udp
import SomoNet.UdpCallbacks
import SomoNet.UdpPeers
import SomoNet.World
