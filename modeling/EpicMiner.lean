import EpicMiner.Library.Program
import EpicMiner.Library.Machine
import EpicMiner.Library.Lines
import EpicMiner.Library.Desk
import EpicMiner.Data.Bytes
import EpicMiner.Data.Job
import EpicMiner.Data.Json
import EpicMiner.Data.JsonText
import EpicMiner.Data.JsonParts
import EpicMiner.EventLoop.Calls
import EpicMiner.EventLoop.Documents
import EpicMiner.EventLoop.Filling
import EpicMiner.EventLoop.Sockets
import EpicMiner.EventLoop.Receive
import EpicMiner.EventLoop.Callbacks
import EpicMiner.EventLoop.Turns
import EpicMiner.EventLoop.JobBounds
import EpicMiner.EventLoop.Decoding
import EpicMiner.EventLoop.Rejections
import EpicMiner.EventLoop.Hostname
import EpicMiner.EventLoop.Framing
import EpicMiner.EventLoop.Consumption
import EpicMiner.EventLoop.Idle
import EpicMiner.EventLoop.Lifecycle
import EpicMiner.EventLoop.Quiet
import EpicMiner.EventLoop.Submit
import EpicMiner.EventLoop.SendCalls
import EpicMiner.EventLoop.Writes
import EpicMiner.EventLoop.Shutdowns
import EpicMiner.EventLoop.Draining
import EpicMiner.EventLoop.Unencrypted
import EpicMiner.EventLoop.Records
import EpicMiner.EventLoop.Slots
import EpicMiner.EventLoop.Footprint
import EpicMiner.EventLoop.Dispatch
import EpicMiner.EventLoop.Replies
import EpicMiner.EventLoop.Matching
import EpicMiner.EventLoop.Accounting
import EpicMiner.EventLoop.Identity
import EpicMiner.EventLoop.SubmitText
import EpicMiner.EventLoop.Echo
import EpicMiner.EventLoop.Timeouts
import EpicMiner.EventLoop.Pools
import EpicMiner.EventLoop.Shapes
import EpicMiner.Mining.Scan
import EpicMiner.Mining.Nonces
import EpicMiner.Mining.Contents
import EpicMiner.Mining.Coverage
import EpicMiner.Mining.PpDataset
import EpicMiner.Mining.Readiness
import EpicMiner.Process.Connections
import EpicMiner.Process.Wakeups
import EpicMiner.Data.HexLoops
import EpicMiner.Report.Session
import EpicMiner.Report.Speed
import EpicMiner.Report.ErrorLog
import EpicMiner.Report.ErrorReport
import EpicMiner.EventLoop.SslError
import EpicMiner.Mining.Ranges
import EpicMiner.Config.Reload
import EpicMiner.Config.Settings
import EpicMiner.Console.Printer
import EpicMiner.Mining.Responsiveness
import EpicMiner.EventLoop.Traffic
import EpicMiner.EventLoop.Credentials
import EpicMiner.EventLoop.Fingerprint
import EpicMiner.EventLoop.Conversation
import EpicMiner.EventLoop.Pacing
import EpicMiner.EventLoop.Progress
import EpicMiner.EventLoop.Announcements
import EpicMiner.Process.Refinement
import EpicMiner.Process.Solutions
import EpicMiner.Process.Submissions
import EpicMiner.Process.Totals
