import ReactorServer.Memory.Slab
import ReactorServer.Memory.Buffer
import ReactorServer.Memory.Pool
import ReactorServer.Memory.ChunkBounds
import ReactorServer.Memory.ByteQueue
import ReactorServer.Net.Interest
import ReactorServer.Net.Connection
import ReactorServer.Net.Lifecycle
import ReactorServer.Net.Shutdown
import ReactorServer.Net.SendOrder
import ReactorServer.Net.WriteInterest
import ReactorServer.Net.AcceptLoop
import ReactorServer.Time.TimeoutManager
import ReactorServer.Time.WheelBounds
import ReactorServer.Time.ActivityRace
import ReactorServer.Time.TimerLoop
import ReactorServer.Time.TimerOrder
import ReactorServer.Net.Registry
import ReactorServer.Loop.EventLoop
import ReactorServer.Loop.Wakeup
import ReactorServer.Threads.ThreadPool
import ReactorServer.Logger.BoundedQueue
import ReactorServer.Logger.LogFiles
import ReactorServer.Logger.Rotation
import ReactorServer.Logger.AsyncLogger
import ReactorServer.Net.ServerControl
import ReactorServer.Loop.PoolShutdown
