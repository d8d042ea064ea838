import Pscdrv.Core.Flat
import Pscdrv.Core.NetworkOrder
import Pscdrv.Core.Scan
import Pscdrv.Target.ClientList
import Pscdrv.Target.Pscmsg
import Pscdrv.Target.Skip
import Pscdrv.Target.Sockets
import Pscdrv.Tcp.Transmit
import Pscdrv.Tcp.Receive
import Pscdrv.Tcp.Callbacks
import Pscdrv.Tcp.Freshness
import Pscdrv.Tcp.Progress
import Pscdrv.Udp.Transmit
import Pscdrv.Udp.Receive
import Pscdrv.Udp.Alike
import Pscdrv.Udp.Outbox
import Pscdrv.Fast.Deadlock
import Pscdrv.Fast.Order
import Pscdrv.Fast.Accounting
import Pscdrv.Fast.Cached
import Pscdrv.Fast.Short
import Pscdrv.Fast.ShortRead
import Pscdrv.Records.LockOrder
import Pscdrv.Records.Readback
import Pscdrv.Records.Waveform
import Pscdrv.Records.WaveformReal
import Pscdrv.Records.Single
import Pscdrv.Records.Layout
import Pscdrv.Records.Analog
import Pscdrv.Records.Shape
import Pscdrv.Records.Strings
import Pscdrv.Records.Link
import Pscdrv.Sig.Prepared
import Pscdrv.Sig.Stats
import Pscdrv.Sig.Power
import Pscdrv.Xbpm.Connread
import Pscdrv.Link.Uplink
import Pscdrv.Link.Downlink
import Pscdrv.Link.Echo
import Pscdrv.Link.Datagrams
import Pscdrv.Link.StopAll
import Pscdrv.Link.StopReturns
import Pscdrv.Target.Broadcast
import Pscdrv.Xbpm.Callbacks
import Pscdrv.Fast.Shutdown
import Pscdrv.Fast.Gapless
