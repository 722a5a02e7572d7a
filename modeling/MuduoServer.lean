import MuduoServer.FaultMachine
import MuduoServer.OrderedSet
import MuduoServer.Block
import MuduoServer.BatchQueue
import MuduoServer.Endian
import MuduoServer.Buffer
import MuduoServer.BufferQueue
import MuduoServer.Channel
import MuduoServer.TcpConnection
import MuduoServer.OutputIntegrity
import MuduoServer.GracefulShutdown
import MuduoServer.TimerQueue
import MuduoServer.TimerInvariant
import MuduoServer.TimerCancel
import MuduoServer.TimerArming
import MuduoServer.EventLoop
import MuduoServer.Wakeup
import MuduoServer.PendingFunctors
import MuduoServer.ConnectionPhases
import MuduoServer.TcpServer
import MuduoServer.ServerLedger
import MuduoServer.ServerInvariant
import MuduoServer.Lifecycle
import MuduoServer.ConnectionTable
import MuduoServer.EPollPoller
import MuduoServer.EPollBookkeeping
import MuduoServer.PollPoller
import MuduoServer.PollerEquivalence
import MuduoServer.EventLoopThread
import MuduoServer.ThreadQuit
import MuduoServer.CrlfLines
import MuduoServer.Http
import MuduoServer.HttpParsing
import MuduoServer.HttpSegmentation
import MuduoServer.HttpSplits
import MuduoServer.Connector
import MuduoServer.ConnectorCalls
import MuduoServer.ClientConnectors
import MuduoServer.ClientDestruction
import MuduoServer.ClientLifetime
import MuduoServer.ConnectionPointers
import MuduoServer.FunctorLifetime
import MuduoServer.ActiveChannels
import MuduoServer.ActiveInvariant
import MuduoServer.AddTimerCalls
import MuduoServer.AddTimerSafety
import MuduoServer.AsyncLogging
import MuduoServer.AsyncLoggingPool
import MuduoServer.AsyncLoggingStop
import MuduoServer.BoundedBlockingQueue
import MuduoServer.ConnectionNames
import MuduoServer.RemovalSafety
import MuduoServer.ThreadPool
import MuduoServer.ThreadPoolStop
import MuduoServer.TimerContract
import MuduoServer.BankAgreement
import MuduoServer.BankMoney
import MuduoServer.BankSafety
import MuduoServer.BankPackets
import MuduoServer.BankRequests
import MuduoServer.HttpGrammar
import MuduoServer.SendCallbacks
import MuduoServer.BankBills
import MuduoServer.BankProtocol
import MuduoServer.BankCredentials
import MuduoServer.BillPages
import MuduoServer.IdeaThreads
import MuduoServer.BankAtomic
import MuduoServer.BankChecks
import MuduoServer.Digits
import MuduoServer.HttpFraming
import MuduoServer.HttpKeepAlive
import MuduoServer.HttpTermination
import MuduoServer.PollArray
import MuduoServer.BufferCodec
import MuduoServer.Calendar
import MuduoServer.LogFile
import MuduoServer.LogFormat
import MuduoServer.LogHeader
import MuduoServer.LogRecord
import MuduoServer.LogRolling
import MuduoServer.BankDecoding
import MuduoServer.StreamRoundTrip
import MuduoServer.IdeaChunks
import MuduoServer.BankAccountIds
import MuduoServer.BankInterest
import MuduoServer.JEdit
import MuduoServer.InspectorRouting
import MuduoServer.Absorb
import MuduoServer.Euclid
import MuduoServer.IdeaKeys
import MuduoServer.MD5
import MuduoServer.Acceptor
import MuduoServer.Sudoku
import MuduoServer.ChatServer
import MuduoServer.Multiplexer
