import Xshm.System.Basic
import Xshm.Circular.DropOldest
import Xshm.Circular.Window
import Xshm.Ring.Copy
import Xshm.Auto.Session
import Xshm.Auto.Loop
import Xshm.Dispatch.Deadlock
import Xshm.Dispatch.Removal
import Xshm.Dispatch.Silence
import Xshm.Dispatch.Lobby
import Xshm.Dispatch.Order
import Xshm.Dispatch.Protocol
import Xshm.Endpoint.ConnectRequest
import Xshm.Endpoint.HandshakeErrors
import Xshm.Endpoint.Reconnect
import Xshm.Sending.Agreement
import Xshm.Sending.Commands
import Xshm.Sending.Places
import Xshm.Sending.Statistics
import Xshm.Ffi.Poll
import Xshm.Ffi.Registration
import Xshm.Multi.Assignment
import Xshm.Multi.Callbacks
import Xshm.Multi.Agreement
import Xshm.Multi.Disconnect
import Xshm.Multi.Flags
import Xshm.Multi.Liveness
import Xshm.Multi.Orphan
import Xshm.Multi.Pending
import Xshm.Multi.Reserve
import Xshm.Multi.Shutdown
import Xshm.Multi.Watching
import Xshm.Ring.Alone
import Xshm.Ring.AnyMemory
import Xshm.Ring.Eviction
import Xshm.Ring.Atomic
import Xshm.Ring.Ledger
import Xshm.Ring.Progress
import Xshm.Platform.Names
import Xshm.Ring.Retention
import Xshm.Ring.Notification
import Xshm.Auto.Handler
import Xshm.Endpoint.Mapping
