import Xixi.Lib.Chain
import Xixi.Lib.Run
import Xixi.IntrusiveList
import Xixi.HashMap
import Xixi.Watch
import Xixi.Item
import Xixi.Stats
import Xixi.Decimal
import Xixi.Manager
import Xixi.Operation
import Xixi.Store
import Xixi.Invariant
import Xixi.Steps
import Xixi.Refinement.Lookup
import Xixi.Refinement.Update
import Xixi.Refinement.Sweep
import Xixi.Refinement.Frame
import Xixi.Refinement.Operation
import Xixi.System
import Xixi.Structure
import Xixi.Reference
import Xixi.Storage
import Xixi.Cas
import Xixi.Notification
import Xixi.Delivery
import Xixi.LocalCacheWatch
import Xixi.Effects
import Xixi.Filing
import Xixi.Failure
import Xixi.Expiry.Sweep
import Xixi.Expiry.Soundness
import Xixi.Expiry.Completeness
import Xixi.Moves.Step
import Xixi.Moves.Operation
import Xixi.Memory
import Xixi.Statistics
import Xixi.LongPoll
import Xixi.Lib.Wire
import Xixi.Peer.Pdu
import Xixi.Peer.Machine
import Xixi.Peer.Handlers
import Xixi.Peer.Place
import Xixi.Peer.Connection
import Xixi.Peer.Framing
import Xixi.Peer.Progress
import Xixi.CacheBuffer
import Xixi.Peer.Traffic
import Xixi.Peer.Slices
import Xixi.Peer.Endian
import Xixi.Peer.Response
import Xixi.Client.Numbers
import Xixi.Client.Protocol
import Xixi.Client.Multi
import Xixi.Http.Text
import Xixi.Http.Request
import Xixi.Http.Reply
import Xixi.Http.Machine
import Xixi.Http.Response
import Xixi.Parsing
import Xixi.SizeClass
import Xixi.Counter
import Xixi.Expiry.Exact
import Xixi.WatchLife
import Xixi.Client.LocalCache
import Xixi.Client.Accounting
import Xixi.Client.CacheIdIndex
import Xixi.Client.WeightMap
import Xixi.Client.TransCoder
import Xixi.Client.Fragments
import Xixi.Expiry.Absent
import Xixi.Http.Message
import Xixi.Client.Capacity
import Xixi.Http.Dispatch
import Xixi.Http.Arguments
import Xixi.Lib.Buffer
import Xixi.Http.Fields
import Xixi.Http.WebRoot
import Xixi.Http.Multipart
import Xixi.Http.Gzip
import Xixi.Alongside
import Xixi.Client.Touch
import Xixi.Client.WriteThrough
import Xixi.ReceiveBuffer
import Xixi.ListSequence
import Xixi.FiniteMap
import Xixi.StatLog
import Xixi.Totals
import Xixi.Client.Weights
import Xixi.Client.ObjectCoding
import Xixi.Lib.Stages
import Xixi.Client.Channel
import Xixi.Client.MultiGet
import Xixi.Client.MultiUpdate
import Xixi.Dictionary
import Xixi.Steady
import Xixi.Snapshot
import Xixi.Lib.Absorb
import Xixi.Hash
import Xixi.Peer.References
import Xixi.Http.Traffic
import Xixi.Http.Connection
import Xixi.Lib.Compose
import Xixi.Peer.Discipline
import Xixi.Server
import Xixi.Accept
import Xixi.Lib.Custody
import Xixi.Client.SocketManager
import Xixi.Lib.Realize
import Xixi.Client.TCPSocket
import Xixi.Client.Call
import Xixi.Peer.Serving
import Xixi.Client.RoundTrip
