import Shoot.Progress
import Shoot.Simulation
import Shoot.CallLoop
import Shoot.Syscall
import Shoot.BinaryHeap
import Shoot.LinkedList
import Shoot.CxxString
import Shoot.LexicalPath
import Shoot.Records
import Shoot.RoundRobin
import Shoot.HttpMessage
import Shoot.Handshake
import Shoot.AsyncLoggingStop
import Shoot.AsyncLoggingRotation
import Shoot.AsyncLoggingLedger
import Shoot.BlockingQueue
import Shoot.CountDownLatch
import Shoot.ThreadStart
import Shoot.LogStream
import Shoot.AppendLength
import Shoot.Convert
import Shoot.Logger
import Shoot.WriteFile
import Shoot.LogFile
import Shoot.AsyncLoggingFlush
import Shoot.LogSystem
import Shoot.TimerGuard
import Shoot.ChannelInterest
import Shoot.ChannelOneShot
import Shoot.EventLoopPending
import Shoot.EventLoopProgress
import Shoot.EventLoopThread
import Shoot.EventLoopPool
import Shoot.TCPServerSteps
import Shoot.TCPServerPlaces
import Shoot.TCPServerReferences
import Shoot.TCPServerOwnership
import Shoot.TCPServerLocality
import Shoot.TCPServerBooks
import Shoot.TCPServerDispatch
import Shoot.TCPServerPositions
import Shoot.TCPServerAcceptor
import Shoot.TCPServerLifetime
import Shoot.TCPServerDeaf
import Shoot.TCPServerRoundRobin
import Shoot.TCPServerProgress
import Shoot.TCPServerLoops
import Shoot.TCPConnectionRead
import Shoot.TCPConnectionResponse
import Shoot.ToolsRead
import Shoot.ToolsWrite
import Shoot.HTTPParse
import Shoot.HTTPParseBounds
import Shoot.Version1.Heap
import Shoot.Version1.HeapCapacity
import Shoot.Version1.HeapDestructor
import Shoot.Version1.Time
import Shoot.Version1.Http
import Shoot.Version1.HttpIo
import Shoot.Version1.HttpPieces
import Shoot.Version1.HttpPaths
import Shoot.Version1.HttpCalls
import Shoot.Version1.HttpLine
import Shoot.Version1.HttpBounds
import Shoot.Version1.HttpResponse
import Shoot.Version1.TaskQueue
import Shoot.Version1.ThreadPool
import Shoot.Version1.ThreadPoolProgress
import Shoot.Version1.Server
import Shoot.Version1.ServerTables
import Shoot.Version1.ServerRequests
import Shoot.Version1.ServerDescriptors
import Shoot.Version1.ServerBacklog
import Shoot.Version1.ServerConnections
