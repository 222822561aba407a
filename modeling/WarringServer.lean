import WarringServer.Lib.Run
import WarringServer.Lib.TestAndSet
import WarringServer.Lib.Alarm
import WarringServer.Lib.RoundRobin
import WarringServer.Lib.SwapRemove
import WarringServer.Lib.ConsumerGroup
import WarringServer.Lib.LittleEndian
import WarringServer.Lib.Monitor
import WarringServer.Lib.Decimal
import WarringServer.Lib.Descending
import WarringServer.Lib.Fairness
import WarringServer.Lib.Framing
import WarringServer.Net.IOBuffer
import WarringServer.Net.InputBuffer
import WarringServer.Net.TcpConnection
import WarringServer.Net.Output
import WarringServer.Net.TcpServer
import WarringServer.Net.EventLoopThreadpool
import WarringServer.Net.EventLoop
import WarringServer.Net.Poller
import WarringServer.Net.PollerRefine
import WarringServer.Net.EpollKernel
import WarringServer.Net.PollReady
import WarringServer.Net.PollTable
import WarringServer.Server.ReadFrame
import WarringServer.Server.Recipients
import WarringServer.Server.LostAnswers
import WarringServer.Server.LoginPath
import WarringServer.Server.LoginLosses
import WarringServer.Server.Accept
import WarringServer.Server.Traffic
import WarringServer.Message.BaseMessage
import WarringServer.Message.Decode
import WarringServer.Message.Faults
import WarringServer.Message.Schema
import WarringServer.Message.RoundTrip
import WarringServer.Message.Reencode
import WarringServer.Message.Types
import WarringServer.Server.Delivery
import WarringServer.Server.Dispatch
import WarringServer.Server.Reuse
import WarringServer.Utility.Timer
import WarringServer.Utility.TimerView
import WarringServer.Utility.TimerDue
import WarringServer.Utility.OneShot
import WarringServer.Utility.Repeat
import WarringServer.Utility.RemoveTask
import WarringServer.Utility.Periodic
import WarringServer.Utility.TimerID
import WarringServer.Utility.WheelIndex
import WarringServer.Thread.Threadpool
import WarringServer.Thread.AdjustTimer
import WarringServer.Thread.Worker
import WarringServer.Thread.WorkerPool
import WarringServer.Thread.TasksRun
import WarringServer.Thread.Cancel
import WarringServer.Thread.LoadLimit
import WarringServer.CenterServer.ServiceRegistry
import WarringServer.CenterServer.LossDetection
import WarringServer.CenterServer.Services
import WarringServer.Utility.SafeHashmap
import WarringServer.Utility.SafeQueue
import WarringServer.Utility.LoggerFile
import WarringServer.Utility.Logger
import WarringServer.Utility.ShortWrites
import WarringServer.Utility.LoggerStop
import WarringServer.GameServer.SceneManager
import WarringServer.GameServer.SceneSets
import WarringServer.Server.Heartbeat
import WarringServer.Server.CheckHeartbeat
import WarringServer.Server.HeartbeatTasks
import WarringServer.Server.Rings
import WarringServer.Server.Silence
import WarringServer.Lib.Collection
import WarringServer.DBServer.Messages
import WarringServer.DBServer.Document
import WarringServer.DBServer.Database
import WarringServer.DBServer.Consistency
import WarringServer.Lib.Job
import WarringServer.DBServer.QueryTask
import WarringServer.DBServer.Store
import WarringServer.DBServer.LowLoad
import WarringServer.DBServer.Gateman
import WarringServer.DBServer.Isolation
import WarringServer.DBServer.LoadPaths
import WarringServer.DBServer.Readers
import WarringServer.DBServer.UniqueNames
import WarringServer.DBServer.Accounts
import WarringServer.DBServer.Removal
import WarringServer.DBServer.Sessions
import WarringServer.Broker.RSBrokerManager
import WarringServer.Broker.Replies
import WarringServer.DBServer.ServiceAddress
import WarringServer.Broker.PreviousId
import WarringServer.Broker.Siblings
import WarringServer.Broker.OneStream
import WarringServer.CenterServer.Routing
