import LibuvWorks.Unix.FsPollStart
import LibuvWorks.Queue
import LibuvWorks.PollTimeout
import LibuvWorks.ActiveHandles
import LibuvWorks.Socks5.Format
import LibuvWorks.Socks5.Proxy
import LibuvWorks.Socks5.Teardown
import LibuvWorks.Socks5.Aborts
import LibuvWorks.Socks5.Replies
import LibuvWorks.Socks5.Safety
import LibuvWorks.Socks5.Bind
import LibuvWorks.Pool.Works
import LibuvWorks.UVSocket.Clients
import LibuvWorks.UVSocket.Send
import LibuvWorks.UVSocket.Connect
import LibuvWorks.Unix.Registry
import LibuvWorks.Unix.Dispatch
import LibuvWorks.Unix.StreamHandles
import LibuvWorks.Unix.Shutdowns
import LibuvWorks.Unix.ClosedWatchers
import LibuvWorks.Unix.TryWrite
import LibuvWorks.Unix.UdpSends
import LibuvWorks.Unix.SignalClose
import LibuvWorks.Unix.ProcessExits
import LibuvWorks.Unix.SpawnPlumbing
import LibuvWorks.Inet.RoundTrip
import LibuvWorks.Unix.RecvFds
import LibuvWorks.Unix.Listen
import LibuvWorks.Win.PipeWrites
import LibuvWorks.Win.PipeOwnership
import LibuvWorks.Win.PollLoop
import LibuvWorks.Win.SlowPolls
import LibuvWorks.Win.TcpReads
import LibuvWorks.Win.UdpRecv
import LibuvWorks.Win.SignalHandle
import LibuvWorks.Win.TcpAnswers
import LibuvWorks.Win.TcpServer
import LibuvWorks.Win.ZeroReads
import LibuvWorks.Unix.CloseHandles
import LibuvWorks.AsyncSends
import LibuvWorks.WatcherRounds
import LibuvWorks.SignalTrees
import LibuvWorks.Win.TtyVterm
import LibuvWorks.Win.TtyWindow
import LibuvWorks.Win.TtyReads
import LibuvWorks.Win.TtyCancel
import LibuvWorks.Win.RwLocks
import LibuvWorks.Win.BarrierReturns
import LibuvWorks.Win.CondVars
import LibuvWorks.Win.LoopTable
import LibuvWorks.Win.Once
import LibuvWorks.Win.FsEvents
import LibuvWorks.Win.FsEventStart
import LibuvWorks.Win.PipeWriteErrors
import LibuvWorks.Win.StdioCreate
import LibuvWorks.Win.PendingReqs
import LibuvWorks.Win.ProcessExit
import LibuvWorks.Unix.FsReqs
import LibuvWorks.Unix.Connects
import LibuvWorks.Walks
import LibuvWorks.FsPolls
import LibuvWorks.Unix.InotifyEvents
import LibuvWorks.TcpBinds
import LibuvWorks.Unix.IoPoll
import LibuvWorks.Unix.SignalPipe
import LibuvWorks.Win.FileTime
import LibuvWorks.Win.FindPath
import LibuvWorks.Win.TtyLines
import LibuvWorks.Win.TtyCsi
import LibuvWorks.Unix.BufIter
import LibuvWorks.Win.FileTransfers
import LibuvWorks.Unix.SendfileEmul
import LibuvWorks.Win.Scandir
import LibuvWorks.Inet.ZonedAddress
import LibuvWorks.Win.ProgramArgs
import LibuvWorks.Win.SearchPath
