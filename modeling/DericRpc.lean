import DericRpc.Lib.Lts
import DericRpc.EndToEnd
import DericRpc.Waiting
import DericRpc.SyncCall
import DericRpc.IoModule
import DericRpc.MembersLock
import DericRpc.ClientLife
import DericRpc.ThreadLife
import DericRpc.Config
import DericRpc.Envelope
import DericRpc.Dispatch
import DericRpc.IoServer
import DericRpc.Routing
import DericRpc.ServiceLife
import DericRpc.Lib.Locks
import DericRpc.LockOrder
import DericRpc.Withdrawn
import DericRpc.ConnectionLoss
import DericRpc.StopService
import DericRpc.Lib.Resources
import DericRpc.Sockets
import DericRpc.Settings
import DericRpc.IoTable
import DericRpc.Accept
import DericRpc.Wakeups
import DericRpc.Sending
import DericRpc.Lengths
import DericRpc.StreamEnd
import DericRpc.EventLoop
import DericRpc.Draining
import DericRpc.StopThread
import DericRpc.Restart
import DericRpc.ClientTable
import DericRpc.Lib.Numeral
import DericRpc.Listener
import DericRpc.Ports
import DericRpc.Teardown
import DericRpc.MessageIds
import DericRpc.Lib.Simulation
import DericRpc.Lib.Wires
import DericRpc.Segments
import DericRpc.Lib.Exchange
import DericRpc.Remote
import DericRpc.Network
import DericRpc.Calls
import DericRpc.Progress
import DericRpc.Fields
import DericRpc.Nested
import DericRpc.AfterClose
import DericRpc.Descriptors
import DericRpc.ClientEntry
import DericRpc.Reconnect
import DericRpc.Lib.Custody
import DericRpc.ServerSockets
import DericRpc.AtomicCalls
import DericRpc.StoppedClients
import DericRpc.SendBuffer
