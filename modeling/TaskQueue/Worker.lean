/-
# TaskQueue.Worker -- the coroutines of one worker

`run_worker`, `_try_claim`, `_execute_job` and `_handle_failure`, cut at their awaits:
`Pc` is where the coroutine stands, a `WorkerAct` what the awaited call did, and
`runWorker` the next program point with the transaction it commits and the advisory
locks of its claim session.  A statement that raises commits nothing.

`heartbeat_loop` and `stale_reaper_loop` are one loop around different statements.
-/
import TaskQueue.Claim

namespace TaskQueue

set_option autoImplicit false

structure Config where
  /-- `RETRY_BASE_DELAY` -/
  baseDelay : Time
  /-- `WORKER_COUNT` -/
  workerCount : ℕ
  /-- the job types with a registered handler -/
  registry : List String
  /-- Python's `repr` of a string -/
  repr : String → String

/-- A raised exception: the name of its type and its text. -/
structure PyError where
  name : String
  message : String

/-- `f"{type(error).__name__}: {error}"`. -/
def PyError.text (e : PyError) : String := e.name ++ ": " ++ e.message

/-- `get_handler`: a registered type has a handler, any other raises `KeyError`, whose
text is the `repr` of its message. -/
def getHandler (cfg : Config) (jobType : String) : Except PyError Unit :=
  if jobType ∈ cfg.registry then .ok ()
  else
    .error
      { name := "KeyError"
        message := cfg.repr
          ("No handler registered for job type " ++ cfg.repr jobType ++ ". Registered types: [" ++
            ", ".intercalate (cfg.registry.map cfg.repr) ++ "]") }

/-- What a handler returned: a value that the `'done'` UPDATE can store, `none` being
NULL, or one that it rejects. -/
inductive HandlerValue where
  | storable (value : Option Json)
  | rejected

/-- How a handler ended; `raisesBase` is an exception that `except Exception` lets
pass, such as `asyncio.CancelledError`. -/
inductive HandlerOutcome where
  | returns (value : HandlerValue)
  | raises (error : PyError)
  | raisesBase

/-- Where `run_worker` stands. -/
inductive Pc where
  | absent
  | connecting
  /-- at the test of `shutdown_event` -/
  | loopHead
  /-- inside `_try_claim`, with the `NOW()` of its transaction -/
  | begun (startedAt : Time)
  /-- the same, with the snapshot of its SELECT -/
  | claiming (snapshot : SerialTable Job) (startedAt : Time)
  /-- in `_execute_job`, before the `'running'` UPDATE -/
  | marking (job : Record)
  /-- before `get_handler` -/
  | starting (job : Record)
  | handling (job : Record)
  /-- before the `'done'` UPDATE -/
  | storing (job : Record) (value : HandlerValue)
  /-- in `_handle_failure`, before its transaction -/
  | failing (job : Record) (error : PyError)
  /-- in the `finally` of `_execute_job`, with or without a pending exception -/
  | unlocking (id : JobId) (raised : Bool)
  /-- waiting for `notify_event` -/
  | waiting
  /-- in the `finally` of `run_worker`; `left` is a job it claimed and never unlocked -/
  | closing (raised : Bool) (left : Option JobId)
  | exited (raised : Bool)
  /-- its process crashed -/
  | dead

inductive WorkerAct where
  | connect (ok : Bool)
  | enterLoop
  | select
  | claim (plan : ClaimPlan)
  | claimRaises (scanned : List JobId)
  | markRunning (raises : Bool)
  | startHandler
  | handlerEnds (payload : Json) (outcome : HandlerOutcome)
  | storeDone (raises : Option PyError)
  | handleFailure (raises : Bool)
  | unlock (raises : Bool)
  | wake
  | close (raises : Bool)

/-- The next program point, the transaction committed on the way, and the advisory
locks afterwards. -/
structure Move where
  pc : Pc
  statement : Option Statement := none
  locks : LockTable

/-- `dict(job["payload"]) if isinstance(job["payload"], dict) else {}`. -/
def payloadDict : Json → Json
  | .obj fields => .obj fields
  | _ => .obj []

/-- `_handle_failure`: dead letter when the retries are used up, else back to pending. -/
def handleFailure (cfg : Config) (job : Record) (error : PyError) (worker : WorkerId) :
    Statement :=
  if job.maxRetries ≤ job.attempt + 1 then
    .bury job.id job.type (payloadDict job.payload) error.text (job.attempt + 1) worker
  else
    .retry (2 ^ job.attempt * cfg.baseDelay) error.text job.id

/-- `_try_claim`.  The advisory locks of its WHERE clause outlive the transaction, also
when it raises and rolls back. -/
def tryClaim (locks : LockTable) (latest : SerialTable Job) (worker : WorkerId)
    (snapshot : SerialTable Job) (startedAt : Time) (plan : ClaimPlan) : Option Move :=
  if plan.Admissible locks worker startedAt snapshot latest then
    match plan.returned with
    | none => some { pc := .waiting, locks := locks.lockAll worker plan.lockCalls }
    | some id =>
        (latest.row id).map fun r =>
          { pc := .marking (.ofRow id r)
            statement := some (.claim worker id startedAt)
            locks := locks.lockAll worker plan.lockCalls }
  else none

/-- `_execute_job`. -/
def executeJob (cfg : Config) (locks : LockTable) (worker : WorkerId) :
    Pc → WorkerAct → Option Move
  -- the `'running'` UPDATE stands before the try: when it raises, nothing unlocks
  | .marking job, .markRunning false =>
      some { pc := .starting job, statement := some (.markRunning job.id), locks }
  | .marking job, .markRunning true => some { pc := .closing true (some job.id), locks }
  | .starting job, .startHandler =>
      match getHandler cfg job.type with
      | .ok () => some { pc := .handling job, locks }
      | .error e => some { pc := .failing job e, locks }
  -- `dict(job)` is shallow: the handler's payload object is the record's
  | .handling job, .handlerEnds payload (.returns value) =>
      some { pc := .storing { job with payload } value, locks }
  | .handling job, .handlerEnds payload (.raises e) =>
      some { pc := .failing { job with payload } e, locks }
  | .handling job, .handlerEnds _ .raisesBase => some { pc := .unlocking job.id true, locks }
  | .storing job (.storable value), .storeDone none =>
      some
        { pc := .unlocking job.id false, statement := some (.storeDone value worker job.id), locks }
  | .storing job _, .storeDone (some e) => some { pc := .failing job e, locks }
  | .failing job e, .handleFailure false =>
      some
        { pc := .unlocking job.id false, statement := some (handleFailure cfg job e worker), locks }
  | .failing job _, .handleFailure true => some { pc := .unlocking job.id true, locks }
  -- an unlock that raises is swallowed
  | .unlocking id raised, .unlock raises =>
      some
        { pc := if raised then .closing true none else .loopHead
          locks := if raises then locks else locks.unlock worker id }
  | _, _ => none

/-- `run_worker`. -/
def runWorker (cfg : Config) (shutdown : Bool) (now : Time) (jobs : SerialTable Job)
    (locks : LockTable) (worker : WorkerId) : Pc → WorkerAct → Option Move
  | .connecting, .connect ok => some { pc := if ok then .loopHead else .exited true, locks }
  | .loopHead, .enterLoop =>
      some { pc := if shutdown then .closing false none else .begun now, locks }
  | .begun startedAt, .select => some { pc := .claiming jobs startedAt, locks }
  | .claiming snapshot startedAt, .claim plan =>
      tryClaim locks jobs worker snapshot startedAt plan
  | .claiming snapshot startedAt, .claimRaises scanned =>
      if ∀ id ∈ scanned, eligible startedAt snapshot id = true then
        some { pc := .closing true none, locks := locks.lockAll worker scanned }
      else none
  | .waiting, .wake => some { pc := .loopHead, locks }
  -- `listen_conn.close()` may raise before `claim_conn.close()` is reached
  | .closing raised _, .close raises =>
      some
        { pc := .exited (raised || raises)
          locks := if raises then locks else locks.closeWhere (· == worker) }
  | pc, act => executeJob cfg locks worker pc act

/-! ## The two background loops -/

/-- Where `heartbeat_loop` or `stale_reaper_loop` stands. -/
inductive LoopPc where
  | absent
  | checking
  | updating
  | sleeping
  | exited
  deriving DecidableEq, Repr

/-- `update` commits the loop's UPDATE; `postgresError` is caught and logged, any other
exception ends the loop; `wake` is the end of `_interruptible_sleep`. -/
inductive LoopAct where
  | check
  | update
  | postgresError
  | otherError
  | wake
  deriving DecidableEq, Repr

def loopNext (shutdown : Bool) : LoopPc → LoopAct → Option LoopPc
  | .checking, .check => some (if shutdown then .exited else .updating)
  | .updating, .update => some .sleeping
  | .updating, .postgresError => some .sleeping
  | .updating, .otherError => some .exited
  | .sleeping, .wake => some (if shutdown then .exited else .checking)
  | _, _ => none

end TaskQueue
