import NetworkingLab.Foundation.CString
import NetworkingLab.Foundation.Runs
import NetworkingLab.SelectiveRepeat.Pack
import NetworkingLab.SelectiveRepeat.SendPacket
import NetworkingLab.SelectiveRepeat.Peer
import NetworkingLab.Foundation.InOrder
import NetworkingLab.SelectiveRepeat.SenderInvariant
import NetworkingLab.Foundation.Delivery
import NetworkingLab.SelectiveRepeat.Transfer
import NetworkingLab.SelectiveRepeat.PeerPair
import NetworkingLab.SelectiveRepeat.EndToEnd
import NetworkingLab.SelectiveRepeat.WindowSafety
import NetworkingLab.Foundation.LittleEndian
import NetworkingLab.SelectiveRepeat.Framing
import NetworkingLab.SelectiveRepeat.ServerConnections
import NetworkingLab.Foundation.CachingResolver
import NetworkingLab.Foundation.Scan
import NetworkingLab.NameService.Table
import NetworkingLab.NameService.Processes
import NetworkingLab.NameService.Resolution
import NetworkingLab.Proxy.Relay
import NetworkingLab.Proxy.Check
import NetworkingLab.Proxy.Request
import NetworkingLab.Proxy.Filter
import NetworkingLab.Proxy.Forwarding
import NetworkingLab.Foundation.Channels
import NetworkingLab.NameService.Clients
import NetworkingLab.NameService.CacheIntegrity
import NetworkingLab.NameService.ReplyRouting
import NetworkingLab.NameService.SharedCache
import NetworkingLab.Foundation.Sentinel
import NetworkingLab.PeerDirectory.Table
import NetworkingLab.PeerDirectory.EndMark
import NetworkingLab.PeerDirectory.Lookup
import NetworkingLab.PeerDirectory.Download
import NetworkingLab.FileService.Login
import NetworkingLab.FileService.Upload
import NetworkingLab.SelectiveRepeat.Capacity
import NetworkingLab.SelectiveRepeat.Robustness
import NetworkingLab.Proxy.Bounds
import NetworkingLab.Proxy.RequestLine
import NetworkingLab.Foundation.Frontier
import NetworkingLab.SelectiveRepeat.Acknowledgements
import NetworkingLab.SelectiveRepeat.Transmissions
import NetworkingLab.Foundation.FileStream
import NetworkingLab.Reversal.Server
import NetworkingLab.PeerMesh.Programs
import NetworkingLab.PeerMesh.Waiting
import NetworkingLab.Proxy.AddressFallback
import NetworkingLab.SelectiveRepeat.Packetisation
import NetworkingLab.FileService.Verdict
import NetworkingLab.Reversal.Client
import NetworkingLab.Foundation.ByteMemory
import NetworkingLab.Foundation.GreedyMatch
import NetworkingLab.StringSearch.Program
import NetworkingLab.StringSearch.Doubling
import NetworkingLab.StringSearch.Containment
import NetworkingLab.SelectiveRepeat.FaultyNetwork
import NetworkingLab.SelectiveRepeat.Completion
import NetworkingLab.Foundation.Machines
import NetworkingLab.Simulator.Scheduler
import NetworkingLab.Simulator.EventOrder
import NetworkingLab.Simulator.Dispatch
import NetworkingLab.Simulator.Refinement
import NetworkingLab.Foundation.BinaryTree
import NetworkingLab.Simulator.SplayScheduler
import NetworkingLab.Foundation.BinaryHeap
import NetworkingLab.Simulator.Heap
import NetworkingLab.Simulator.HeapScheduler
import NetworkingLab.Foundation.RingBuffer
import NetworkingLab.Simulator.Acker
import NetworkingLab.Simulator.ReceiveWindow
import NetworkingLab.Simulator.TimerHandler
import NetworkingLab.Simulator.TcpSink
import NetworkingLab.Simulator.DelayedAcks
import NetworkingLab.Foundation.ShortestPaths
import NetworkingLab.Foundation.SquareTable
import NetworkingLab.Simulator.RouteLogic
import NetworkingLab.Simulator.ShortestRoutes
import NetworkingLab.Foundation.NextHops
import NetworkingLab.Simulator.Classifier
import NetworkingLab.Simulator.FlatRouting
import NetworkingLab.Foundation.CircularList
import NetworkingLab.Foundation.DeficitRoundRobin
import NetworkingLab.Foundation.RoundRobinFairness
import NetworkingLab.Simulator.Drr
import NetworkingLab.Simulator.DrrRing
import NetworkingLab.Simulator.DrrFairness
