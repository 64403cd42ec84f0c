import Scgrep.Lib.Dict
import Scgrep.Lib.Redis
import Scgrep.Lib.Retention
import Scgrep.Lib.Text
import Scgrep.Lib.Mqtt
import Scgrep.Lib.FloorWindow
import Scgrep.Lib.Noninterference
import Scgrep.Lib.Snapshot
import Scgrep.Lib.Pattern
import Scgrep.Lib.Calendar
import Scgrep.Lib.Raising
import Scgrep.Lib.FifoPool
import Scgrep.Spec.Python
import Scgrep.Spec.Datetime
import Scgrep.Spec.Util
import Scgrep.Spec.Config
import Scgrep.Spec.Store
import Scgrep.Spec.Registry
import Scgrep.Spec.Faults
import Scgrep.Spec.Handler
import Scgrep.Spec.Fetch
import Scgrep.Spec.Paging
import Scgrep.Spec.Cycle
import Scgrep.Spec.Pool
import Scgrep.Spec.Arrival
import Scgrep.Spec.Exposition
import Scgrep.Spec.Purge
import Scgrep.Spec.Log
import Scgrep.Spec.MessageLog
import Scgrep.Spec.Report
import Scgrep.Spec.Minutes
import Scgrep.Spec.Profile
import Scgrep.Spec.Scheduler
import Scgrep.Spec.Failing
import Scgrep.Spec.World
import Scgrep.Spec.Tables
import Scgrep.Spec.Manager
import Scgrep.Proof.ConfigSpec
import Scgrep.Proof.Identity
import Scgrep.Proof.StoreSpec
import Scgrep.Proof.History
import Scgrep.Proof.Keyspace
import Scgrep.Proof.Faults
import Scgrep.Proof.Baseline
import Scgrep.Proof.Topic
import Scgrep.Proof.Query
import Scgrep.Proof.Schedule
import Scgrep.Proof.FetchSpec
import Scgrep.Proof.Publish
import Scgrep.Proof.Refresh
import Scgrep.Proof.Scrape
import Scgrep.Proof.Purge
import Scgrep.Proof.LogLines
import Scgrep.Proof.Report
import Scgrep.Proof.Summary
import Scgrep.Proof.MessageLines
import Scgrep.Proof.Minutes
import Scgrep.Proof.Instants
import Scgrep.Proof.Cutoffs
import Scgrep.Proof.Manager
import Scgrep.Proof.Accumulate
import Scgrep.Proof.Failing
import Scgrep.Proof.Pool
import Scgrep.Proof.WorldStep
import Scgrep.Proof.CycleRun
import Scgrep.Proof.Routing
import Scgrep.Proof.Aborted
import Scgrep.Proof.StoreRun
import Scgrep.Proof.Recount
import Scgrep.Proof.Channels
import Scgrep.Proof.Confluence
import Scgrep.Proof.LiveRun
import Scgrep.Proof.SyncRun
import Scgrep.Proof.Paging
import Scgrep.Proof.ReplayRun
import Scgrep.Proof.EndToEnd
import Scgrep.Proof.Arrival
import Scgrep.Proof.Profile
import Scgrep.Lib.IndexLog
import Scgrep.Lib.Variant
import Scgrep.Spec.Threads
import Scgrep.Spec.Timing
import Scgrep.Proof.ThreadSteps
import Scgrep.Proof.Threads
import Scgrep.Proof.ReplayThreads
import Scgrep.Proof.Lapse
import Scgrep.Proof.Deadline
import Scgrep.Proof.Completion
import Scgrep.Proof.Leftover
import Scgrep.Proof.Lifetime
import Scgrep.Spec.Broker
import Scgrep.Proof.Broker
import Scgrep.Lib.SortedSet
import Scgrep.Proof.Logging
import Scgrep.Proof.LossReport
import Scgrep.Proof.Process
import Scgrep.Proof.Restarts
import Scgrep.Proof.SummaryReport
import Scgrep.Proof.PurgeLife
import Scgrep.Proof.RestartLines
import Scgrep.Proof.RestartRuns
