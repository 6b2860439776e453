import PennCloud.Lib.DList
import PennCloud.Lib.SortedMap
import PennCloud.Kv.Kvstore
import PennCloud.Kv.Contents
import PennCloud.Kv.Proof.Frames
import PennCloud.Kv.Proof.Rows
import PennCloud.Lib.Run
import PennCloud.Kv.Proof.Chunks
import PennCloud.Kv.Proof.Places
import PennCloud.Kv.Proof.Restore
import PennCloud.Kv.Proof.Steps
import PennCloud.Kv.Proof.Tidy
import PennCloud.Kv.Proof.Ordered
import PennCloud.Kv.Proof.Filled
import PennCloud.Kv.Proof.Sound
import PennCloud.Kv.Proof.SoundSteps
import PennCloud.Kv.Proof.Loops
import PennCloud.Kv.Spec
import PennCloud.Kv.Proof.Refine
import PennCloud.Kv.Proof.Commands
import PennCloud.Kv.Proof.Changes
import PennCloud.Kv.Proof.Evictions
import PennCloud.Kv.Proof.Numbers
import PennCloud.Kv.Proof.Replies
import PennCloud.Kv.Proof.Requests
import PennCloud.Kv.Proof.Convergence
import PennCloud.Lib.Ring
import PennCloud.Master.Master
import PennCloud.Master.Proof.Routing
import PennCloud.Master.Proof.Joins
import PennCloud.Master.Proof.Lookups
import PennCloud.Kv.Proof.Closed
import PennCloud.Kv.Proof.Wired
import PennCloud.Kv.Proof.Migration
import PennCloud.Kv.Proof.Settled
import PennCloud.Kv.Proof.Budget
import PennCloud.Kv.Proof.Counters
import PennCloud.Kv.Proof.Guarded
import PennCloud.Lib.Recency
import PennCloud.Kv.Proof.Limit
import PennCloud.Kv.Proof.Recent
import PennCloud.Kv.Proof.Halts
import PennCloud.Frontend.Store
import PennCloud.Webmail.Webmail
import PennCloud.Kv.Proof.Gets
import PennCloud.Frontend.Proof.Login
import PennCloud.Kv.Proof.Holdback
import PennCloud.Kv.Proof.Replication
import PennCloud.Kv.Proof.Alike
import PennCloud.Kv.Proof.Replay
import PennCloud.Frontend.LoadBalancer
import PennCloud.Frontend.Proof.Balance
import PennCloud.Master.Proof.Backups
import PennCloud.Master.Proof.Directory
import PennCloud.Frontend.Response
import PennCloud.Frontend.Proof.Addressing
import PennCloud.Frontend.Proof.Strangers
import PennCloud.Kv.Proof.Segments
import PennCloud.Kv.Proof.Rounds
import PennCloud.Kv.Proof.Checkpoint
import PennCloud.Kv.Proof.Restart
import PennCloud.Kv.Proof.Dialogue
import PennCloud.Frontend.Proof.Lines
import PennCloud.Kv.Proof.Feedback
import PennCloud.Frontend.Proof.Endings
import PennCloud.Kv.Proof.Newcomers
import PennCloud.Frontend.Proof.Registration
import PennCloud.Lib.History
import PennCloud.Lib.Keyed
import PennCloud.Lib.Message
import PennCloud.Webmail.Proof.Resets
import PennCloud.Kv.Proof.Exchange
import PennCloud.Lib.Shedding
import PennCloud.Kv.Proof.Lru
import PennCloud.Kv.Proof.Pressure
import PennCloud.Frontend.Mail
import PennCloud.Frontend.Proof.ViewEmail
import PennCloud.Webmail.Connection
import PennCloud.Webmail.Proof.Arrival
import PennCloud.Kv.Proof.Residents
import PennCloud.Frontend.Proof.Inbox
import PennCloud.Kv.Identity
import PennCloud.Master.Proof.Announcement
import PennCloud.Frontend.Folders
import PennCloud.Frontend.Proof.Folders
import PennCloud.Frontend.Proof.Uploads
import PennCloud.Webmail.Proof.Recipients
import PennCloud.Webmail.Buffer
import PennCloud.Webmail.Proof.Overruns
import PennCloud.Webmail.Worker
import PennCloud.Webmail.Proof.Verbatim
import PennCloud.Kv.Proof.Cuts
import PennCloud.Kv.Threads
import PennCloud.Frontend.Request
import PennCloud.Frontend.Proof.Parsing
import PennCloud.Frontend.Proof.Operations
import PennCloud.Frontend.Proof.Confined
import PennCloud.Frontend.Proof.Shelves
import PennCloud.Frontend.Proof.Mirrors
import PennCloud.Frontend.Proof.Streams
import PennCloud.Frontend.Proof.Cookies
import PennCloud.Frontend.AdminConsole
import PennCloud.Frontend.Reply
import PennCloud.Frontend.Proof.Replies
import PennCloud.Frontend.Proof.Console
import PennCloud.Kv.Proof.Partition
import PennCloud.Frontend.Proof.Strings
import PennCloud.Kv.Proof.Arguments
import PennCloud.Kv.Proof.Snapshot
import PennCloud.Kv.Proof.Crash
import PennCloud.Kv.Proof.Stocked
import PennCloud.Kv.Proof.Durability
import PennCloud.Kv.Proof.Failover
import PennCloud.Kv.Proof.Transfer
import PennCloud.Frontend.Proof.Replies
import PennCloud.Frontend.Proof.RoundTrip
import PennCloud.Frontend.Proof.Sessions
import PennCloud.Frontend.Proof.Rounds
import PennCloud.Kv.Process
import PennCloud.Kv.Proof.Roles
import PennCloud.Kv.Proof.Accepting
import PennCloud.Frontend.Cluster
import PennCloud.Frontend.Proof.OneStore
import PennCloud.Frontend.Proof.Downloads
import PennCloud.Kv.Proof.Reports
import PennCloud.Webmail.Proof.Closing
