/-
# TaskQueue.Claim -- the claim query

`_try_claim` selects one row with

    WHERE status = 'pending' AND run_at <= NOW() AND pg_try_advisory_lock(id)
    ORDER BY priority DESC, run_at ASC FOR UPDATE SKIP LOCKED LIMIT 1

The WHERE clause is evaluated on rows of the statement's snapshot, and evaluating it
takes an advisory lock of the claim session.  Which eligible rows that happens to
depends on the plan: all of them when PostgreSQL sorts before LIMIT, a prefix of the
order when it walks `idx_jobs_queue`.  FOR UPDATE then drops the rows that another
transaction has locked and those whose latest version fails the clause; a dropped
row keeps the lock just taken.

A `ClaimPlan` records what one evaluation did, and `ClaimPlan.Admissible` says that
it is an evaluation of this query: the answer is the first of the surviving rows,
so every eligible row ahead of the answer was scanned and did not survive.
-/
import TaskQueue.Statements
import TaskQueue.Lib.SessionLock

namespace TaskQueue

set_option autoImplicit false

/-- Advisory locks, held by the claim sessions of the workers. -/
abbrev LockTable := SessionLock.Locks WorkerId JobId

/-- The columns that the claim query returns. -/
structure Record where
  id : JobId
  type : String
  payload : Json
  status : Status
  priority : Priority
  attempt : ℕ
  maxRetries : ℕ
  runAt : Time
  workerId : Option WorkerId
  error : Option String

def Record.ofRow (id : JobId) (r : Job) : Record where
  id := id
  type := r.type
  payload := r.payload
  status := r.status
  priority := r.priority
  attempt := r.attempt
  maxRetries := r.maxRetries
  runAt := r.runAt
  workerId := r.workerId
  error := r.error

/-- `status = 'pending' AND run_at <= NOW()`. -/
def eligible (now : Time) (jobs : SerialTable Job) (id : JobId) : Bool :=
  match jobs.row id with
  | some r => r.status = .pending && r.runAt ≤ now
  | none => false

theorem eligible_iff {now : Time} {jobs : SerialTable Job} {id : JobId} :
    eligible now jobs id = true ↔
      ∃ r, jobs.row id = some r ∧ r.status = .pending ∧ r.runAt ≤ now := by
  unfold eligible
  cases jobs.row id <;> simp

/-- `a` comes strictly before `b` in `ORDER BY priority DESC, run_at ASC`. -/
def comesBefore (jobs : SerialTable Job) (a b : JobId) : Bool :=
  match jobs.row a, jobs.row b with
  | some r, some r' =>
      r'.priority.1 < r.priority.1 || (r.priority.1 = r'.priority.1 && r.runAt < r'.runAt)
  | _, _ => false

/-- Rows strictly before the answer; every row, when there is no answer. -/
def aheadOf (jobs : SerialTable Job) : Option JobId → JobId → Bool
  | some r, x => comesBefore jobs x r
  | none, _ => true

/-- One evaluation of the claim query: the rows on which the WHERE clause was
evaluated, the rows that other transactions had locked, whether FOR UPDATE found a
newer version of the answer and evaluated the clause again, and the answer. -/
structure ClaimPlan where
  scanned : List JobId
  rowLocked : List JobId
  rechecked : Bool
  returned : Option JobId

namespace ClaimPlan

/-- The row was scanned, its advisory lock obtained, and FOR UPDATE kept it. -/
def Survives (plan : ClaimPlan) (locks : LockTable) (worker : WorkerId) (startedAt : Time)
    (latest : SerialTable Job) (id : JobId) : Prop :=
  id ∈ plan.scanned ∧ locks.Obtainable worker id ∧ id ∉ plan.rowLocked ∧
    eligible startedAt latest id = true

instance (plan : ClaimPlan) (locks : LockTable) (worker : WorkerId) (startedAt : Time)
    (latest : SerialTable Job) (id : JobId) :
    Decidable (plan.Survives locks worker startedAt latest id) :=
  inferInstanceAs (Decidable (_ ∧ _))

/-- `plan` is an evaluation of the claim query on `snapshot`, locking rows of `latest`. -/
def Admissible (plan : ClaimPlan) (locks : LockTable) (worker : WorkerId) (startedAt : Time)
    (snapshot latest : SerialTable Job) : Prop :=
  plan.scanned.Nodup ∧
  (∀ id ∈ plan.scanned, eligible startedAt snapshot id = true) ∧
  (∀ id ∈ plan.returned, plan.Survives locks worker startedAt latest id) ∧
  ∀ id ∈ snapshot.keys, eligible startedAt snapshot id = true →
    aheadOf snapshot plan.returned id = true →
      id ∈ plan.scanned ∧ ¬ plan.Survives locks worker startedAt latest id

instance (plan : ClaimPlan) (locks : LockTable) (worker : WorkerId) (startedAt : Time)
    (snapshot latest : SerialTable Job) :
    Decidable (plan.Admissible locks worker startedAt snapshot latest) :=
  inferInstanceAs (Decidable (_ ∧ _))

/-- The calls of `pg_try_advisory_lock`: one for each row scanned, and one more when
the clause was evaluated again on a newer version of the answer. -/
def lockCalls (plan : ClaimPlan) : List JobId :=
  plan.scanned ++ if plan.rechecked then plan.returned.toList else []

theorem mem_scanned_of_mem_lockCalls {plan : ClaimPlan} {locks : LockTable} {worker : WorkerId}
    {startedAt : Time} {snapshot latest : SerialTable Job} {id : JobId}
    (admissible : plan.Admissible locks worker startedAt snapshot latest)
    (called : id ∈ plan.lockCalls) : id ∈ plan.scanned := by
  rcases List.mem_append.1 called with scanned | again
  · exact scanned
  · split at again
    · exact (admissible.2.2.1 id (by simpa using again)).1
    · simp at again

end ClaimPlan

end TaskQueue
