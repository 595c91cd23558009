import Dolda.Storage.Rotation
import Dolda.Storage.Reopen
import Dolda.Storage.LiveScan
import Dolda.Storage.Numbering
import Dolda.Storage.Tasks
import Dolda.Compaction.Worker
import Dolda.Compaction.Preserve
import Dolda.PersistQ.Reads
import Dolda.Rollover
import Dolda.Mailbox.Polling
import Dolda.Mailbox.Sharing
import Dolda.Mailbox.Creation
import Dolda.Mailbox.Forwarding
import Dolda.Network.Concurrent
import Dolda.Network.Client
import Dolda.Network.Session
import Dolda.Protocol.Server
import Dolda.Protocol.Pool
import Dolda.Raft.Election
import Dolda.Raft.Leadership
import Dolda.Raft.Runtime
import Dolda.Resilience.Threads
import Dolda.Resilience.Retry
import Dolda.Health.Http
import Dolda.Trading.Trades
import Dolda.Demo
