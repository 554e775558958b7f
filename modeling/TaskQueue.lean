import TaskQueue.Lib.Run
import TaskQueue.Lib.SessionLock
import TaskQueue.Lib.SerialTable
import TaskQueue.Lib.RetryBudget
import TaskQueue.Lib.Loop
import TaskQueue.Lib.TrialDivision
import TaskQueue.Lib.Dict
import TaskQueue.Lib.Paging
import TaskQueue.Schema
import TaskQueue.Statements
import TaskQueue.Claim
import TaskQueue.Worker
import TaskQueue.Advance
import TaskQueue.Api
import TaskQueue.System
import TaskQueue.Exclusion
import TaskQueue.Change
import TaskQueue.Ownership
import TaskQueue.Lifecycle
import TaskQueue.Cancellation
import TaskQueue.Accounting
import TaskQueue.DeadLetters
import TaskQueue.Payloads
import TaskQueue.CrashRecovery
import TaskQueue.ProofOfLife
import TaskQueue.Punctuality
import TaskQueue.LockLeak
import TaskQueue.ClaimOrder
import TaskQueue.Handlers
import TaskQueue.Primality
import TaskQueue.Metrics
import TaskQueue.MetricsRace
import TaskQueue.Listing
import TaskQueue.Wakeup
import TaskQueue.Backoff
import TaskQueue.Executions
import TaskQueue.CleanExit
import TaskQueue.Draining
import TaskQueue.Faults
import TaskQueue.Recording
import TaskQueue.GroundTruth
import TaskQueue.Benchmark
import TaskQueue.Columns
import TaskQueue.Conservation
import TaskQueue.Responses
import TaskQueue.Shutdown
import TaskQueue.Enqueueing
import TaskQueue.Pool
import TaskQueue.Scheduling
import TaskQueue.Liveness
import TaskQueue.Lib.InfiniteRun
import TaskQueue.Lib.Ranking
import TaskQueue.Lib.RetryLoop
import TaskQueue.Lib.Polling
import TaskQueue.Lib.Quantiles
import TaskQueue.Registry
import TaskQueue.Sequential
import TaskQueue.BuiltinJobs
import TaskQueue.Acceptance
import TaskQueue.Completion
import TaskQueue.LoadReport
import TaskQueue.LoadTest
import TaskQueue.BenchmarkRun
