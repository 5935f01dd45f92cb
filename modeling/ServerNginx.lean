import ServerNginx.Lib.Run
import ServerNginx.Lib.Links
import ServerNginx.Lib.Block
import ServerNginx.Lib.CNumber
import ServerNginx.Net.Comm
import ServerNginx.Http.Cursor
import ServerNginx.Http.Announced
import ServerNginx.Http.History
import ServerNginx.Http.Ranged
import ServerNginx.Http.Mappings
import ServerNginx.Net.Online
import ServerNginx.Net.Heartbeat
import ServerNginx.Net.Window
import ServerNginx.Net.Agree
import ServerNginx.Net.Stale
import ServerNginx.Net.Accepted
import ServerNginx.Net.Alive
import ServerNginx.Net.Pipeline
import ServerNginx.Net.Deadlock
import ServerNginx.Net.Edge
import ServerNginx.Misc.Wakeup
import ServerNginx.Misc.Tasks
import ServerNginx.Misc.Limits
import ServerNginx.App.WorkerLoop
import ServerNginx.Net.FloodOff
import ServerNginx.Net.FreedOnce
import ServerNginx.Net.Sweep
import ServerNginx.Net.Halt
import ServerNginx.Net.TlsWrite
import ServerNginx.Http.Grammar
import ServerNginx.Http.Content
import ServerNginx.Http.FileName
import ServerNginx.Http.HeadGet
import ServerNginx.Http.Order
import ServerNginx.Http.Weights
import ServerNginx.Misc.Crc32
import ServerNginx.Misc.PackBuf
import ServerNginx.Net.Flood
import ServerNginx.Net.RecvState
import ServerNginx.App.Config
import ServerNginx.App.ProcTitle
import ServerNginx.App.Alarm
import ServerNginx.Net.Motion
import ServerNginx.Net.Quarantine
import ServerNginx.Net.Batch
import ServerNginx.Misc.Shutdown
import ServerNginx.Proc.Master
import ServerNginx.Lib.Handles
import ServerNginx.Net.Descriptors
import ServerNginx.Net.EventAccept
import ServerNginx.Net.PingLock
import ServerNginx.Http.Revalidate
import ServerNginx.App.Startup
import ServerNginx.Misc.Services
import ServerNginx.Net.Completed
