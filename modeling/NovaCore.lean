import NovaCore.Cdc.Replay
import NovaCore.Cdc.StreamReads
import NovaCore.Compaction.Merge
import NovaCore.Dynamic.Authorized
import NovaCore.Dynamic.RefreshStates
import NovaCore.Executor.Engine
import NovaCore.Metadata.Functions
import NovaCore.Metadata.Identity
import NovaCore.Mp.Gc
import NovaCore.Mp.Pruning
import NovaCore.Mp.SnapshotRead
import NovaCore.Mp.Stability
import NovaCore.Mysql.Auth
import NovaCore.Mysql.Codec
import NovaCore.Mysql.ResultSet
import NovaCore.Mysql.Roles
import NovaCore.Raft.Durable
import NovaCore.Raft.StateMachine
import NovaCore.Security.Depth
import NovaCore.Security.GrantIndex
import NovaCore.Sql.Insert
import NovaCore.Storage.Range
import NovaCore.Storage.Retry
import NovaCore.Transactions.Terminal
import NovaCore.Workers.Dispatch
import NovaCore.Workers.Reschedule
import NovaCore.Workers.AutoScaling
import NovaCore.Planner.JoinOrder
import NovaCore.Planner.RuntimeFilter
import NovaCore.Storage.Backup
import NovaCore.Executor.Like
import NovaCore.Planner.Dictionary
import NovaCore.Executor.Rows
import NovaCore.Mp.Clone
