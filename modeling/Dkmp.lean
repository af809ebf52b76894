import Dkmp.Machine.Linked
import Dkmp.Machine.PathMap
import Dkmp.Csdb.Agree
import Dkmp.Csdb.Mutex
import Dkmp.Csc.DbFile
import Dkmp.Machine.Trace
import Dkmp.Ikcd.Packet
import Dkmp.Ikcd.Request
import Dkmp.Ikcd.Backlog
import Dkmp.Ikcd.Removal
import Dkmp.Ikcd.Receive
import Dkmp.Ikcd.InWorker
import Dkmp.Ikcd.OutWorker
import Dkmp.Ikcd.LastRequest
import Dkmp.Ikcd.Network
import Dkmp.Dkmke.Kernel
import Dkmp.Dkmke.Moves
import Dkmp.Dkmke.Invariant
import Dkmp.Dkmke.Handshake
import Dkmp.Dkmke.Answered
import Dkmp.Dkmke.Registration
import Dkmp.Dkmke.Fork
import Dkmp.Ikcd.Queue
import Dkmp.Ikcd.Wakeup
import Dkmp.Ikcd.Creation
import Dkmp.Csp.Packet
import Dkmp.Csc.Alive
import Dkmp.Csd.Hello
import Dkmp.Csd.AliveSet
import Dkmp.Csd.Bounds
import Dkmp.Csc.Libs
import Dkmp.Csd.Capability
import Dkmp.Csd.Answer
import Dkmp.Csd.ReplySize
import Dkmp.Csda.BestNode
import Dkmp.Csda.BestNodeQueue
import Dkmp.Csd.TokenLoops
import Dkmp.Csdb.HeapInvariant
import Dkmp.Csd.Wire
import Dkmp.Csc.Malformed
import Dkmp.Csdb.Listing
import Dkmp.Csd.CapNodes
import Dkmp.Csd.Apps
import Dkmp.Csd.DefReq
import Dkmp.Dkmke.Dkmctl
import Dkmp.Machine.Tokens
import Dkmp.Csda.Fits
import Dkmp.Csdb.Mtime
import Dkmp.Ikcd.AbsentRequest
import Dkmp.Csdb.BinaryOrder
import Dkmp.Dkmke.Sleepers
import Dkmp.Ikcd.MainLoop
import Dkmp.Ikcd.Settle
import Dkmp.Csd.Cluster
import Dkmp.Machine.Replica
import Dkmp.Csd.Provenance
import Dkmp.Machine.Shared
import Dkmp.Csd.Serve
import Dkmp.Csm.Client
import Dkmp.Csm.Session
import Dkmp.Csm.Command
import Dkmp.Machine.Scanf
import Dkmp.Csd.Collect
import Dkmp.Csd.Figures
import Dkmp.Ikcd.Exchange
import Dkmp.Csda.BestNodeQueue
