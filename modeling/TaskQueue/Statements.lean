/-
# TaskQueue.Statements -- the SQL that the program commits

One constructor of `Statement` for each transaction of the program that changes a
table, and `Db.exec`, what PostgreSQL leaves when it commits one at a given `NOW()`.
Every UPDATE of a worker selects its row by id alone; only the heartbeat and the
reaper look at the columns.
-/
import TaskQueue.Schema

namespace TaskQueue

set_option autoImplicit false

/-- `STALE_THRESHOLD`: seconds without heartbeat before a job is reclaimed. -/
def staleThreshold : Time := 30

/-! ## What each statement does to one row -/

namespace Job

/-- `create_job`: the row of an INSERT, the other columns at their defaults. -/
def ofCreate (now : Time) (body : JobCreate) : Job where
  type := body.type
  payload := body.payload
  status := .pending
  priority := body.priority
  attempt := 0
  maxRetries := body.maxRetries
  runAt := body.runAt.getD now
  claimedAt := none
  heartbeatAt := none
  completedAt := none
  result := none
  error := none
  workerId := none
  createdAt := now

/-- The UPDATE of `_try_claim`.  It leaves `heartbeat_at` as it is. -/
def setClaimed (now : Time) (worker : WorkerId) (r : Job) : Job :=
  { r with status := .claimed, claimedAt := some now, workerId := some worker }

/-- The first UPDATE of `_execute_job`.  It leaves `worker_id` as it is. -/
def setRunning (now : Time) (r : Job) : Job :=
  { r with status := .running, heartbeatAt := some now }

/-- The UPDATE of `_execute_job` after the handler returned. -/
def setDone (now : Time) (result : Option Json) (worker : WorkerId) (r : Job) : Job :=
  { r with
    status := .done, result := result, completedAt := some now, workerId := some worker,
    heartbeatAt := none, attempt := r.attempt + 1 }

/-- The UPDATE of `_handle_failure` that goes with the dead letter. -/
def setDead (error : String) (r : Job) : Job :=
  { r with status := .dead, error := some error, attempt := r.attempt + 1 }

/-- The UPDATE of `_handle_failure` that schedules a retry.  It leaves `heartbeat_at` as it is. -/
def setRetry (now backoff : Time) (error : String) (r : Job) : Job :=
  { r with
    status := .pending, attempt := r.attempt + 1, runAt := now + backoff, error := some error,
    workerId := none }

/-- The UPDATE of `heartbeat_loop`. -/
def setHeartbeat (now : Time) (r : Job) : Job := { r with heartbeatAt := some now }

/-- The UPDATE of `stale_reaper_loop`. -/
def setReclaimed (r : Job) : Job :=
  { r with status := .pending, claimedAt := none, workerId := none, heartbeatAt := none }

/-- The WHERE clause of `heartbeat_loop`. -/
def beatsFor (worker : WorkerId) (r : Job) : Bool :=
  (Sql.Tri.and (Sql.eq r.workerId (some worker)) (some (r.status = .running))).holds

/-- The WHERE clause of `stale_reaper_loop`. -/
def isStale (now : Time) (r : Job) : Bool :=
  (Sql.Tri.and (some (r.status = .claimed || r.status = .running))
    (Sql.lt r.heartbeatAt (some (now - staleThreshold)))).holds

theorem beatsFor_iff {worker : WorkerId} {r : Job} :
    r.beatsFor worker = true ↔ r.workerId = some worker ∧ r.status = .running := by
  simp [beatsFor, Sql.holds_eq]

/-- A row is stale only with a heartbeat: `NULL < t` is unknown. -/
theorem isStale_iff {now : Time} {r : Job} :
    r.isStale now = true ↔
      (r.status = .claimed ∨ r.status = .running) ∧
        ∃ h, r.heartbeatAt = some h ∧ h < now - staleThreshold := by
  simp [isStale, Sql.holds_lt]

end Job

/-! ## The statements -/

/-- A transaction of the program that changes a table. -/
inductive Statement where
  | insertJob (body : JobCreate)
  | claim (worker : WorkerId) (id : JobId) (startedAt : Time)
  | markRunning (id : JobId)
  | storeDone (result : Option Json) (worker : WorkerId) (id : JobId)
  | bury (id : JobId) (type : String) (payload : Json) (error : String) (attempts : ℕ)
      (worker : WorkerId)
  | retry (backoff : Time) (error : String) (id : JobId)
  | heartbeat (worker : WorkerId)
  | reap
  | deleteJob (id : JobId)

/-- The statements of a worker's coroutine. -/
def Statement.byWorker : Statement → Bool
  | .claim _ _ _ | .markRunning _ | .storeDone _ _ _ | .bury _ _ _ _ _ _ | .retry _ _ _ => true
  | _ => false

/-- The tables after `statement` commits.  `NOW()` is the start of the transaction:
the instant itself for a single statement, `startedAt` for the claim. -/
def Db.exec (now : Time) (db : Db) : Statement → Db
  | .insertJob body => { db with jobs := db.jobs.insert (.ofCreate now body) }
  | .claim worker id startedAt =>
      { db with jobs := db.jobs.updateKey id (.setClaimed startedAt worker) }
  | .markRunning id => { db with jobs := db.jobs.updateKey id (.setRunning now) }
  | .storeDone result worker id =>
      { db with jobs := db.jobs.updateKey id (.setDone now result worker) }
  | .bury id type payload error attempts worker =>
      { jobs := db.jobs.updateKey id (.setDead error)
        deadLetters :=
          db.deadLetters ++
            [{ originalId := id, type, payload, error, attempts
               workerId := worker, diedAt := now }] }
  | .retry backoff error id =>
      { db with jobs := db.jobs.updateKey id (.setRetry now backoff error) }
  | .heartbeat worker =>
      { db with jobs := db.jobs.updateWhere (Job.beatsFor worker) (.setHeartbeat now) }
  | .reap => { db with jobs := db.jobs.updateWhere (Job.isStale now) .setReclaimed }
  | .deleteJob id => { db with jobs := db.jobs.delete id }

/-- A step commits at most one transaction. -/
def Db.commit (now : Time) (db : Db) : Option Statement → Db
  | none => db
  | some statement => db.exec now statement

/-! ## One row along a statement -/

/-- What `statement` leaves of the row of job `j`; an INSERT touches no row that is there. -/
def Statement.onRow (now : Time) (j : JobId) : Statement → Job → Option Job
  | .insertJob _, r => some r
  | .claim worker id startedAt, r => some (if j = id then r.setClaimed startedAt worker else r)
  | .markRunning id, r => some (if j = id then r.setRunning now else r)
  | .storeDone result worker id, r => some (if j = id then r.setDone now result worker else r)
  | .bury id _ _ error _ _, r => some (if j = id then r.setDead error else r)
  | .retry backoff error id, r => some (if j = id then r.setRetry now backoff error else r)
  | .heartbeat worker, r => some (if r.beatsFor worker then r.setHeartbeat now else r)
  | .reap, r => some (if r.isStale now then r.setReclaimed else r)
  | .deleteJob id, r => if j = id then none else some r

/-- The same for a step that may commit nothing. -/
def rowAfter (now : Time) (j : JobId) : Option Statement → Job → Option Job
  | none, r => some r
  | some statement, r => statement.onRow now j r

theorem row_commit {now : Time} {db : Db} {j : JobId} {r : Job} (st : Option Statement)
    (at_ : db.jobs.row j = some r) : (db.commit now st).jobs.row j = rowAfter now j st r := by
  cases st with
  | none => exact at_
  | some statement =>
      cases statement with
      | insertJob body =>
          have old : j ≠ db.jobs.next := Nat.ne_of_lt (SerialTable.lt_next at_)
          simp [Db.commit, Db.exec, rowAfter, Statement.onRow, SerialTable.row_insert, old, at_]
      | deleteJob id =>
          simp [Db.commit, Db.exec, rowAfter, Statement.onRow, SerialTable.row_delete, at_]
      | heartbeat worker => simp [Db.commit, Db.exec, rowAfter, Statement.onRow, at_]
      | reap => simp [Db.commit, Db.exec, rowAfter, Statement.onRow, at_]
      | _ =>
          simp only [Db.commit, Db.exec, rowAfter, Statement.onRow, SerialTable.row_updateKey, at_]
          split <;> rfl

/-- A key that was handed out and has no row never gets one again. -/
theorem row_commit_none {now : Time} {db : Db} {j : JobId} (st : Option Statement)
    (gone : db.jobs.row j = none) (old : j < db.jobs.next) :
    (db.commit now st).jobs.row j = none := by
  cases st with
  | none => exact gone
  | some statement =>
      cases statement with
      | insertJob body =>
          simp [Db.commit, Db.exec, SerialTable.row_insert, gone, Nat.ne_of_lt old]
      | deleteJob id => simp [Db.commit, Db.exec, SerialTable.row_delete, gone]
      | heartbeat worker => simp [Db.commit, Db.exec, gone]
      | reap => simp [Db.commit, Db.exec, gone]
      | _ => simp [Db.commit, Db.exec, SerialTable.row_updateKey, gone]

theorem next_commit (now : Time) (db : Db) (st : Option Statement) :
    db.jobs.next ≤ (db.commit now st).jobs.next := by
  cases st with
  | none => exact Nat.le_refl _
  | some statement => cases statement <;> simp [Db.commit, Db.exec]

/-- A row of a job that existed comes from the row before. -/
theorem row_before {now : Time} {db : Db} {j : JobId} {r' : Job} (st : Option Statement)
    (old : j < db.jobs.next) (at_ : (db.commit now st).jobs.row j = some r') :
    ∃ r, db.jobs.row j = some r ∧ rowAfter now j st r = some r' := by
  cases before : db.jobs.row j with
  | none =>
      rw [row_commit_none st before old] at at_
      cases at_
  | some r =>
      rw [row_commit st before] at at_
      exact ⟨r, rfl, at_⟩

/-- A row that was not there comes from an INSERT. -/
theorem row_new {now : Time} {db : Db} {j : JobId} {r' : Job} {st : Option Statement}
    (gone : db.jobs.row j = none) (at_ : (db.commit now st).jobs.row j = some r') :
    ∃ body, st = some (.insertJob body) ∧ j = db.jobs.next ∧ r' = .ofCreate now body := by
  cases st with
  | none => cases gone.symm.trans at_
  | some statement =>
      cases statement with
      | insertJob body =>
          simp only [Db.commit, Db.exec, SerialTable.row_insert] at at_
          split at at_
          · rename_i next
            exact ⟨body, rfl, next, (Option.some.inj at_).symm⟩
          · cases gone.symm.trans at_
      | deleteJob id => simp [Db.commit, Db.exec, SerialTable.row_delete, gone] at at_
      | heartbeat worker => simp [Db.commit, Db.exec, gone] at at_
      | reap => simp [Db.commit, Db.exec, gone] at at_
      | _ => simp [Db.commit, Db.exec, SerialTable.row_updateKey, gone] at at_

end TaskQueue
