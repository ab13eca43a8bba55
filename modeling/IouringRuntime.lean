import IouringRuntime.Reentrant.Trace
import IouringRuntime.Streaming.BoundedQueue
import IouringRuntime.Posix.Path
import IouringRuntime.Concurrent.Threads
import IouringRuntime.Concurrent.LateLinks
import IouringRuntime.Concurrent.IndexRing
import IouringRuntime.Reentrant.Channel
import IouringRuntime.Reentrant.Machine
import IouringRuntime.Reentrant.Call
import IouringRuntime.Reentrant.Network
import IouringRuntime.Core.Word
import IouringRuntime.Core.SendQueue
import IouringRuntime.Core.SendAccounting
import IouringRuntime.Core.SendState
import IouringRuntime.Core.BufferPool
import IouringRuntime.Core.PoolCounts
import IouringRuntime.Core.PoolSafety
import IouringRuntime.Core.SerialPool
import IouringRuntime.Core.PoolCapacity
import IouringRuntime.Core.RecvBuffer
import IouringRuntime.Core.MpscQueue
import IouringRuntime.Core.MpscFifo
import IouringRuntime.Job.JobQueue
import IouringRuntime.Job.GlobalQueue
import IouringRuntime.Job.JobTimer
import IouringRuntime.Streaming.Decoder
import IouringRuntime.Streaming.Search
import IouringRuntime.Media.Hls
import IouringRuntime.Game.PacketSession
import IouringRuntime.Game.Framing
import IouringRuntime.Game.PlayerRegistry
import IouringRuntime.Session.State
import IouringRuntime.Session.Code
import IouringRuntime.Session.Control
import IouringRuntime.Session.Backpressure
import IouringRuntime.Session.Submission
import IouringRuntime.Session.Moves
import IouringRuntime.Session.OpOwnership
import IouringRuntime.Session.Inactivity
import IouringRuntime.Session.Quiet
import IouringRuntime.Session.SendStream
import IouringRuntime.Session.DrainGate
import IouringRuntime.Session.Shutdown
import IouringRuntime.Session.RecvQueue
import IouringRuntime.Session.PausedRecv
import IouringRuntime.Session.RecvArmed
import IouringRuntime.Session.PauseReasons
import IouringRuntime.Session.Channels
import IouringRuntime.Session.Reentry
import IouringRuntime.Session.Flush
import IouringRuntime.Session.FlushTest
import IouringRuntime.Web.HttpRequest
import IouringRuntime.Web.RadixTree
import IouringRuntime.Web.RouteMatch
import IouringRuntime.Web.WildcardView
import IouringRuntime.Web.LiteralRoute
import IouringRuntime.Web.HttpParser
import IouringRuntime.Web.HttpResponse
import IouringRuntime.Web.ResponseHead
import IouringRuntime.Web.HttpRecv
import IouringRuntime.Proxy.TlsPeer
import IouringRuntime.Proxy.TlsOrder
import IouringRuntime.Proxy.ProxyBridge
import IouringRuntime.Proxy.BridgeStream
import IouringRuntime.Proxy.BridgeClosure
import IouringRuntime.Proxy.ProxyPair
import IouringRuntime.Proxy.ProxyConnector
import IouringRuntime.Proxy.ConnectorAccounting
import IouringRuntime.Web.HttpSession
import IouringRuntime.Web.Pipeline
import IouringRuntime.Web.Streams
import IouringRuntime.Web.Emission
import IouringRuntime.Web.SendCalls
import IouringRuntime.Web.Router
import IouringRuntime.Web.HttpExchange
import IouringRuntime.Web.RequestDeadline
import IouringRuntime.Web.StreamCallbacks
import IouringRuntime.Web.ErrorReply
import IouringRuntime.Web.OneResponse
import IouringRuntime.Web.UserCode
import IouringRuntime.Web.CloseAfterFlush
import IouringRuntime.Web.ConnectionClose
import IouringRuntime.Web.MiddlewareGuard
import IouringRuntime.Web.ParamNames
import IouringRuntime.Web.AllowHeader
import IouringRuntime.Io.Listener
import IouringRuntime.Ring.IoRing
import IouringRuntime.Ring.RunOnRing
import IouringRuntime.Ring.ProvidedBuffers
import IouringRuntime.Ring.WorkerLoop
import IouringRuntime.Proxy.TlsWrite
import IouringRuntime.Web.DeferredHandles
import IouringRuntime.Web.DeferredPins
import IouringRuntime.Web.ParserReplay
import IouringRuntime.Web.ParserSegments
import IouringRuntime.Io.WorkerPool
import IouringRuntime.Game.RoomManager
import IouringRuntime.Web.QueryParams
import IouringRuntime.Media.ResolveUrl
import IouringRuntime.Activity.Session
import IouringRuntime.Activity.RequestLoop
import IouringRuntime.Activity.Upgrade
import IouringRuntime.Activity.WebSocketFrames
import IouringRuntime.Game.PacketDelivery
import IouringRuntime.Session.Outline
import IouringRuntime.Web.FileTransfer
import IouringRuntime.Web.FileDescriptors
import IouringRuntime.Web.FileLength
import IouringRuntime.Activity.FileResponse
import IouringRuntime.Activity.FileServing
