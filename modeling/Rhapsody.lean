import Rhapsody.Kern.ZallocRuns
import Rhapsody.Ipc.EntryRuns
import Rhapsody.Ipc.PsetRuns
import Rhapsody.Vm.ForkRuns
import Rhapsody.Kern.ThreadCallRuns
import Rhapsody.Kern.RunQueueRuns
import Rhapsody.Hfs.LockfRuns
import Rhapsody.Hfs.VolumeRuns
import Rhapsody.Bsd.CloseOnExec
import Rhapsody.Kern.CallThreads
import Rhapsody.Kern.LockRuns
import Rhapsody.Netat.RoutingRuns
import Rhapsody.Netinet.TcpRuns
import Rhapsody.Netinet.TcpSendRuns
import Rhapsody.Bsd.MbufRuns
import Rhapsody.Bsd.UnixStreamRuns
import Rhapsody.Vm.MapFit
import Rhapsody.Bsd.LockmgrRuns
import Rhapsody.Netinet.UdpBroadcast
import Rhapsody.Netinet.TcpFasttimo
import Rhapsody.Vm.MapWiring
import Rhapsody.Vm.MapMove
import Rhapsody.Ipc.TrailerRoom
import Rhapsody.Hfs.ConvertUTF
import Rhapsody.Hfs.UnicodeCompare
import Rhapsody.Ipc.DnRequests
