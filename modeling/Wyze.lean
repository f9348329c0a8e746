import Wyze.Lib.Run
import Wyze.Lib.Blocks
import Wyze.Lib.OrderedSet
import Wyze.Lib.Words
import Wyze.ByteArray.Refine
import Wyze.ByteArray.Strings
import Wyze.ByteArray.Buffers
import Wyze.ByteArray.Scatter
import Wyze.ByteArray.Retry
import Wyze.Timer.Rollover
import Wyze.Timer.Handles
import Wyze.IOManager.IdleLoop
import Wyze.IOManager.Stopping
import Wyze.IOManager.FdTable
import Wyze.Hook.Connect
import Wyze.Hook.Nonblock
import Wyze.Hook.Sleep
import Wyze.Scheduler.Wakeup
import Wyze.Scheduler.EpollWait
import Wyze.Http.ChunkSizes
import Wyze.Http.Alive
import Wyze.Http.Servlet
import Wyze.Config.FromString
import Wyze.Config.LexicalCast
import Wyze.Config.LoadDir
import Wyze.Log.Define
import Wyze.Log.DefineCast
import Wyze.Log.Formatter
import Wyze.Log.Inherit
import Wyze.Scheduler.Exclusive
import Wyze.Scheduler.Pinned
import Wyze.Http.Framing
import Wyze.Http.NoCase
import Wyze.Http.ResponseRoundTrip
import Wyze.Http.ContentLength
import Wyze.Http.UriRequests
import Wyze.Uri.Ipv6
import Wyze.Stream.FixSize
import Wyze.Address.IPv4
import Wyze.Address.IPv6
import Wyze.Address.Lookup
import Wyze.TcpServer.Bind
import Wyze.Crypto.AesCbc
import Wyze.Db.MysqlConnPool
import Wyze.Daemon.Capacity
import Wyze.Http.Exchange
import Wyze.Thread.Locks
import Wyze.Fiber.Contexts
import Wyze.Hook.Lifetime
import Wyze.Config.Registry
import Wyze.Stream.Transport
import Wyze.TcpServer.Accept
import Wyze.TcpServer.Sockets
import Wyze.Log.Recovers
import Wyze.Log.Accounts
import Wyze.ByteArray.Files
import Wyze.Util.Remove
import Wyze.Daemon.Watch
import Wyze.Daemon.PidFile
