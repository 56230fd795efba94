import SimpleTaskQueue.Core.Runs
import SimpleTaskQueue.Core.Linearizable
import SimpleTaskQueue.Core.Delimited
import SimpleTaskQueue.Core.Sqlite
import SimpleTaskQueue.Core.SqliteRules
import SimpleTaskQueue.Core.SqliteCounts
import SimpleTaskQueue.Core.SqliteHandles
import SimpleTaskQueue.Core.SqliteGhost
import SimpleTaskQueue.Core.Ledger
import SimpleTaskQueue.Core.Processes
import SimpleTaskQueue.Core.ProcessGroups
import SimpleTaskQueue.Core.Mutex
import SimpleTaskQueue.Core.Locking
import SimpleTaskQueue.Core.Bindings
import SimpleTaskQueue.Core.Words
import SimpleTaskQueue.Core.Regex
import SimpleTaskQueue.Core.Paths
import SimpleTaskQueue.Core.DropOldest
import SimpleTaskQueue.Core.Blocks
import SimpleTaskQueue.Model.Proc.Task
import SimpleTaskQueue.Model.Proc.LinuxProc
import SimpleTaskQueue.Model.Proc.WinProc
import SimpleTaskQueue.Model.Proc.Host
import SimpleTaskQueue.Model.Proc.LinuxServer
import SimpleTaskQueue.Model.Proc.OutputBuffer
import SimpleTaskQueue.Model.Proc.TaskOutput
import SimpleTaskQueue.Model.Proc.ReadOutput
import SimpleTaskQueue.Model.Proc.ReaderThreads
import SimpleTaskQueue.Model.Proc.ChildArgv
import SimpleTaskQueue.Model.Protos
import SimpleTaskQueue.Model.Dao.SQLiteQueue.Args
import SimpleTaskQueue.Model.Dao.SQLiteQueue.Tables
import SimpleTaskQueue.Model.Dao.SQLiteQueue.Schema
import SimpleTaskQueue.Model.Dao.SQLiteQueue.Queue
import SimpleTaskQueue.Model.Dao.SQLiteQueue.Locks
import SimpleTaskQueue.Model.Dao.SQLiteQueue.Threads
import SimpleTaskQueue.Model.Dao.SQLiteQueue.File
import SimpleTaskQueue.Model.Dao.LinuxQueue
import SimpleTaskQueue.Model.Dao.SQLiteQueueList
import SimpleTaskQueue.Model.Dao.SQLiteQueue.Life
import SimpleTaskQueue.Model.Dao.FileSystem
import SimpleTaskQueue.Model.Dao.IQueueList
import SimpleTaskQueue.Model.Controller.QueueListImpl
import SimpleTaskQueue.Model.Dao.GRPCQueueList
import SimpleTaskQueue.Model.Controller.QueueImpl
import SimpleTaskQueue.Model.Dao.GRPCQueue
import SimpleTaskQueue.Model.Controller.CLI.Args
import SimpleTaskQueue.Model.Controller.CLI.Queue
import SimpleTaskQueue.Model.Controller.CLI.QueueList
import SimpleTaskQueue.Model.Utils
import SimpleTaskQueue.Model.Dao.DirUtils
import SimpleTaskQueue.Model.Controller.GRPCServer.Config
import SimpleTaskQueue.Model.Controller.GRPCServer.Server
import SimpleTaskQueue.Model.Controller.GRPCServer.Service
import SimpleTaskQueue.Refinement.Statements
import SimpleTaskQueue.Refinement.Operations
import SimpleTaskQueue.Refinement.Opening
import SimpleTaskQueue.Refinement.OpeningCalls
import SimpleTaskQueue.Refinement.Worker
import SimpleTaskQueue.Refinement.Tracking
import SimpleTaskQueue.Refinement.Provenance
import SimpleTaskQueue.Refinement.File
import SimpleTaskQueue.Refinement.Handles
import SimpleTaskQueue.Refinement.Ghost
import SimpleTaskQueue.Refinement.Life
import SimpleTaskQueue.Refinement.LinuxQueue
import SimpleTaskQueue.Refinement.Threads
import SimpleTaskQueue.Refinement.ReadOutput
import SimpleTaskQueue.Refinement.ChildArgv
import SimpleTaskQueue.Refinement.QueueList
import SimpleTaskQueue.Refinement.Scan
import SimpleTaskQueue.Refinement.FileSystem
import SimpleTaskQueue.Refinement.Remote
import SimpleTaskQueue.Refinement.Service
import SimpleTaskQueue.Refinement.RemoteQueue
import SimpleTaskQueue.Refinement.Commands
import SimpleTaskQueue.Refinement.Clients
import SimpleTaskQueue.Properties.Conservation
import SimpleTaskQueue.Properties.Installation
import SimpleTaskQueue.Properties.Alone
import SimpleTaskQueue.Properties.RealTime
import SimpleTaskQueue.Properties.Statements
import SimpleTaskQueue.Properties.Interleaving
import SimpleTaskQueue.Properties.Destructor
import SimpleTaskQueue.Properties.Fidelity
import SimpleTaskQueue.Properties.Move
import SimpleTaskQueue.Properties.Workers
import SimpleTaskQueue.Properties.Deadlock
import SimpleTaskQueue.Properties.Order
import SimpleTaskQueue.Properties.Drain
import SimpleTaskQueue.Properties.ExitStatus
import SimpleTaskQueue.Properties.StartFailure
import SimpleTaskQueue.Properties.Separation
import SimpleTaskQueue.Properties.Restart
import SimpleTaskQueue.Properties.Reopening
import SimpleTaskQueue.Properties.RejectedOpen
import SimpleTaskQueue.Properties.Counter
import SimpleTaskQueue.Properties.CurrentTask
import SimpleTaskQueue.Properties.InFlight
import SimpleTaskQueue.Properties.Stop
import SimpleTaskQueue.Properties.Kill
import SimpleTaskQueue.Properties.Remote
import SimpleTaskQueue.Properties.QueueNames
import SimpleTaskQueue.Properties.SchemaCheck
import SimpleTaskQueue.Properties.RemoveTask
import SimpleTaskQueue.Properties.ListUpdates
import SimpleTaskQueue.Properties.ArgsCodec
import SimpleTaskQueue.Properties.AddTask
import SimpleTaskQueue.Properties.Output
import SimpleTaskQueue.Properties.LostOutput
import SimpleTaskQueue.Properties.TaskOutput
import SimpleTaskQueue.Properties.Joining
import SimpleTaskQueue.Properties.WaitStatus
import SimpleTaskQueue.Properties.StolenStatus
import SimpleTaskQueue.Properties.WinExitCode
import SimpleTaskQueue.Properties.CommandLine
import SimpleTaskQueue.Properties.ChildArgv
import SimpleTaskQueue.Properties.Argv
import SimpleTaskQueue.Properties.Prompt
import SimpleTaskQueue.Properties.Address
import SimpleTaskQueue.Properties.ServerConfig
import SimpleTaskQueue.Properties.Clients
import SimpleTaskQueue.Properties.Entering
import SimpleTaskQueue.Properties.Shutdown
