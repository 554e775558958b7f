/-
# TaskQueue.Metrics -- the two metrics endpoints

`GET /metrics` answers from seven queries, each with a snapshot of its own, and
`GET /metrics/prometheus` renders a registry of gauges.  The gauges are state of the API
process: both endpoints set them from a `GROUP BY` that has no line for an empty status,
where the JSON answer fills in a zero.  Floats are exact rationals here, before `round`.

* `queueDepth_serve`: a call overwrites the gauge of every status that has rows and leaves
  the others as they were.
* `gauges_agree_iff`: so the gauges agree with the table until a status that had rows at
  one call has none at a later one.
-/
import TaskQueue.Lib.Run
import TaskQueue.Statements

namespace TaskQueue

set_option autoImplicit false

open Transition

/-! ## The registry -/

/-- `_prom_registry`, its two gauges; `taskqueue_queue_depth` has a child for each status
label that was ever set. -/
structure Gauges where
  queueDepth : Status → Option ℕ
  activeWorkers : ℕ

/-- The registry of a process that has served no call. -/
def Gauges.fresh : Gauges := ⟨fun _ => none, 0⟩

/-- `for s, v in rows: prom_queue_depth.labels(status=s).set(v)`. -/
def Gauges.setDepths (g : Gauges) (rows : List (Status × ℕ)) : Gauges :=
  { g with
    queueDepth := rows.foldl (fun depth x => Function.update depth x.1 (some x.2)) g.queueDepth }

/-! ## The queries -/

/-- `SELECT status, COUNT(*) AS cnt FROM jobs GROUP BY status`. -/
def depthRows (db : Db) : List (Status × ℕ) := db.jobs.groupCount Job.status

/-- `SELECT COUNT(*) FROM jobs WHERE status IN …`. -/
def countStatus (statuses : List Status) (db : Db) : ℕ :=
  db.jobs.countWhere fun r => r.status ∈ statuses

/-- Jobs that were done in the last 60 seconds. -/
def recentDone (now : Time) (db : Db) : ℕ :=
  db.jobs.countWhere fun r =>
    (Sql.Tri.and (some (r.status = .done)) (Sql.lt (some (now - 60)) r.completedAt)).holds

/-- `AVG(completed_at - created_at)` over the done jobs; NULL when there are none. -/
def avgExecution (db : Db) : Option ℚ :=
  let spans := db.jobs.entries.filterMap fun x =>
    if x.2.status = .done then x.2.completedAt.map fun completed => completed - x.2.createdAt
    else none
  if spans = [] then none else some (spans.sum / spans.length)

/-! ## `get_metrics` -/

structure QueueDepthByStatus where
  pending : ℕ
  claimed : ℕ
  running : ℕ
  done : ℕ
  failed : ℕ
  dead : ℕ

def QueueDepthByStatus.get (q : QueueDepthByStatus) : Status → ℕ
  | .pending => q.pending
  | .claimed => q.claimed
  | .running => q.running
  | .done => q.done
  | .failed => q.failed
  | .dead => q.dead

/-- The sum of the six counts. -/
def QueueDepthByStatus.sum (q : QueueDepthByStatus) : ℕ :=
  q.pending + q.claimed + q.running + q.done + q.failed + q.dead

structure MetricsResponse where
  queueDepth : QueueDepthByStatus
  activeWorkers : ℕ
  jobsPerSecond : ℚ
  errorRate : ℚ
  avgExecutionSeconds : Option ℚ
  totalJobs : ℕ
  deadLetterCount : ℕ

/-- What the queries of one call see, in their order, and the `NOW()` of the second. -/
structure MetricsReads where
  depth : Db
  recentAt : Time
  recent : Db
  terminal : Db
  errored : Db
  average : Db
  total : Db
  letters : Db

/-- All of them see one state of the tables. -/
def MetricsReads.same (now : Time) (db : Db) : MetricsReads where
  depth := db
  recentAt := now
  recent := db
  terminal := db
  errored := db
  average := db
  total := db
  letters := db

/-- `depth_map.get(status, 0)`. -/
def depthGet (rows : List (Status × ℕ)) (status : Status) : ℕ := (rows.lookup status).getD 0

/-- `get_metrics`: the gauges it leaves and its answer. -/
def getMetrics (g : Gauges) (reads : MetricsReads) : Gauges × MetricsResponse :=
  let depthMap := depthRows reads.depth
  let totalTerminal := countStatus [.done, .failed, .dead] reads.terminal
  let totalErrored := countStatus [.failed, .dead] reads.errored
  ({ g.setDepths depthMap with activeWorkers := depthGet depthMap .running },
    { queueDepth :=
        { pending := depthGet depthMap .pending
          claimed := depthGet depthMap .claimed
          running := depthGet depthMap .running
          done := depthGet depthMap .done
          failed := depthGet depthMap .failed
          dead := depthGet depthMap .dead }
      activeWorkers := depthGet depthMap .running
      jobsPerSecond := recentDone reads.recentAt reads.recent / 60
      errorRate := if totalTerminal = 0 then 0 else (totalErrored : ℚ) / totalTerminal
      avgExecutionSeconds := avgExecution reads.average
      totalJobs := reads.total.jobs.countWhere fun _ => true
      deadLetterCount := reads.letters.deadLetters.length })

/-- `prometheus_metrics`: the registry that it renders. -/
def prometheusMetrics (g : Gauges) (depth active : Db) : Gauges :=
  { g.setDepths (depthRows depth) with activeWorkers := countStatus [.running] active }

/-! ## Calls, each at one state of the tables -/

inductive MetricsCall where
  | json (now : Time) (db : Db)
  | prometheus (db : Db)

def MetricsCall.db : MetricsCall → Db
  | .json _ db => db
  | .prometheus db => db

/-- A call is always served. -/
def serve (g : Gauges) : MetricsCall → Option Gauges
  | .json now db => some (getMetrics g (.same now db)).1
  | .prometheus db => some (prometheusMetrics g db db)

/-- The JSON answer of a call. -/
def MetricsCall.answer (g : Gauges) : MetricsCall → Option MetricsResponse
  | .json now db => some (getMetrics g (.same now db)).2
  | .prometheus _ => none

/-- The number of jobs in a status. -/
def depthOf (db : Db) (status : Status) : ℕ := db.jobs.countWhere fun r => r.status = status

/-- Some call so far has seen a job in this status. -/
def Reported (status : Status) (t : History Gauges MetricsCall) : Prop :=
  ∃ x ∈ t, 0 < depthOf x.2.db status

/-- After the last call, the gauge of every reported status and the JSON answer show the
table that the call saw. -/
def GaugesAgree : History Gauges MetricsCall → Gauges → Prop
  | [], _ => True
  | (g₀, call) :: t, g =>
      ∀ status, Reported status ((g₀, call) :: t) →
        g.queueDepth status = some (depthOf call.db status) ∧
          ∀ answer ∈ call.answer g₀, answer.queueDepth.get status = depthOf call.db status

/-- Every status that had jobs at an earlier call has some at this one. -/
def StaysFilled (t : History Gauges MetricsCall) (_ : Gauges) (call : MetricsCall) : Prop :=
  ∀ status, Reported status t → 0 < depthOf call.db status

section

variable {g g' : Gauges} {call : MetricsCall} {t : History Gauges MetricsCall} {status : Status}

theorem depthGet_depthRows (db : Db) (status : Status) :
    depthGet (depthRows db) status = depthOf db status :=
  SerialTable.lookup_groupCount _ _ _

/-- The JSON answer has the depth of every status, zero included. -/
theorem queueDepth_getMetrics (g : Gauges) (reads : MetricsReads) (status : Status) :
    (getMetrics g reads).2.queueDepth.get status = depthOf reads.depth status := by
  cases status <;> exact depthGet_depthRows _ _

theorem queueDepth_setDepths (g : Gauges) (db : Db) (status : Status) :
    (g.setDepths (depthRows db)).queueDepth status =
      if 0 < depthOf db status then some (depthOf db status) else g.queueDepth status := by
  have sets (statuses : List Status) (f : Status → ℕ) (depth : Status → Option ℕ) :
      ((statuses.map fun x => (x, f x)).foldl
          (fun (depth : Status → Option ℕ) x => Function.update depth x.1 (some x.2)) depth)
          status =
        if status ∈ statuses then some (f status) else depth status := by
    induction statuses generalizing depth with
    | nil => rfl
    | cons x statuses ih =>
        simp only [List.map_cons, List.foldl_cons, ih]
        by_cases rest : status ∈ statuses
        · simp [rest]
        · by_cases same : status = x
          · subst same
            simp [rest]
          · simp [rest, same]
  simp only [Gauges.setDepths, depthRows, SerialTable.groupCount, sets, SerialTable.mem_groups]
  rfl

/-- **What a call does to a gauge.** -/
theorem queueDepth_serve (served : serve g call = some g') (status : Status) :
    g'.queueDepth status =
      if 0 < depthOf call.db status then some (depthOf call.db status)
      else g.queueDepth status := by
  cases call with
  | json now db =>
      cases served
      exact queueDepth_setDepths g db status
  | prometheus db =>
      cases served
      exact queueDepth_setDepths g db status

/-- A gauge never shows zero: it is set only for a status with jobs. -/
theorem gauge_pos (run : Run serve .fresh t g) :
    ∀ status n, g.queueDepth status = some n → 0 < n := by
  refine run.invariant (P := fun _ g => ∀ status n, g.queueDepth status = some n → 0 < n) ?_ ?_
  · intro status n shown
    cases shown
  intro t g call g' _ ih served status n shown
  rw [queueDepth_serve served] at shown
  split at shown
  · rename_i filled
    cases shown
    exact filled
  · exact ih status n shown

theorem reported_cons {g₀ : Gauges} :
    Reported status ((g₀, call) :: t) ↔ 0 < depthOf call.db status ∨ Reported status t := by
  simp [Reported]

/-- The JSON answer of a call agrees with the table that it saw. -/
theorem answer_agrees {answer : MetricsResponse} (answers : answer ∈ call.answer g)
    (status : Status) : answer.queueDepth.get status = depthOf call.db status := by
  cases call with
  | json now db =>
      cases answers
      exact queueDepth_getMetrics _ _ _
  | prometheus db => cases answers

theorem staysFilled_of_agree (run : Run serve .fresh t g) (served : serve g call = some g')
    (agree : GaugesAgree ((g, call) :: t) g') : StaysFilled t g call := by
  intro status reported
  have shown := (agree status (reported_cons.2 (.inr reported))).1
  exact gauge_pos (run.snoc served) status _ shown

theorem agree_of_staysFilled (served : serve g call = some g') (filled : StaysFilled t g call) :
    GaugesAgree ((g, call) :: t) g' := by
  intro status reported
  have some_ : 0 < depthOf call.db status := by
    rcases reported_cons.1 reported with now | earlier
    · exact now
    · exact filled status earlier
  exact ⟨(queueDepth_serve served status).trans (if_pos some_), fun _ answers =>
    answer_agrees answers status⟩

end

/-- **When the endpoints agree with the table.**  Over any sequence of calls to the two
endpoints, each at one state of the tables, the gauges of the reported statuses and the
JSON depths equal the table's counts after every call, exactly when no status that had
jobs at an earlier call is empty at a later one. -/
theorem gauges_agree_iff {t : History Gauges MetricsCall} {g : Gauges}
    (run : Run serve .fresh t g) : Throughout GaugesAgree t g ↔ EachStep StaysFilled t := by
  constructor
  · intro agree
    exact run.eachStep (fun _ _ _ _ before _ _ after served =>
      staysFilled_of_agree before served after) agree
  · intro filled
    exact run.throughout trivial (fun _ _ _ _ _ _ filled served =>
      agree_of_staysFilled served filled) filled

/-- Tables with one pending job, and the tables after its cancellation. -/
def demoFilled : Db := Db.exec 0 .empty (.insertJob demoJob)

def demoDrained : Db := demoFilled.exec 0 (.deleteJob 1)

/-- Tables with a second pending job, and the tables after the first one is done. -/
def demoTwo : Db := demoFilled.exec 1 (.insertJob demoJob)

def demoOneDone : Db := demoTwo.exec 2 (.storeDone none ⟨0, 0⟩ 1)

/-- Three calls of the two endpoints agree with the tables, whose counts rise and fall while
the status of the pending jobs stays filled. -/
theorem gauges_agree_filled :
    ∃ t g, Run serve .fresh t g ∧ Throughout GaugesAgree t g ∧
      t.map (fun x => depthOf x.2.db .pending) = [1, 2, 1] ∧
      g.queueDepth .pending = some 1 ∧ g.queueDepth .done = some 1 := by
  have run : Run serve .fresh _ _ :=
    .snoc (.snoc (.single (e := .json 0 demoFilled) rfl) (e := .prometheus demoTwo) rfl)
      (e := .json 2 demoOneDone) rfl
  have grows : ∀ status, 0 < depthOf demoFilled status → 0 < depthOf demoTwo status := by
    intro status
    cases status <;> decide
  have keeps : ∀ status, 0 < depthOf demoTwo status → 0 < depthOf demoOneDone status := by
    intro status
    cases status <;> decide
  have agree := (gauges_agree_iff run).2 ⟨?_, ?_, ?_, trivial⟩
  · have shown := agree.here
    refine ⟨_, _, run, agree, by decide, ?_, ?_⟩
    · exact (shown .pending (reported_cons.2 (.inl (by decide)))).1
    · exact (shown .done (reported_cons.2 (.inl (by decide)))).1
  · intro status reported
    rcases reported_cons.1 reported with two | earlier
    · exact keeps status two
    · rcases reported_cons.1 earlier with one | ⟨_, member, -⟩
      · exact keeps status (grows status one)
      · cases member
  · intro status reported
    rcases reported_cons.1 reported with one | ⟨_, member, -⟩
    · exact grows status one
    · cases member
  · rintro status ⟨_, member, -⟩
    cases member

/-- The job is cancelled, and the next call leaves the gauge of `'pending'` at one. -/
theorem gauge_of_drained_status :
    ∃ t g, Run serve .fresh t g ∧ ¬ Throughout GaugesAgree t g ∧ Reported .pending t ∧
      depthOf demoDrained .pending = 0 ∧ g.queueDepth .pending = some 1 := by
  have first : serve .fresh (.json 0 demoFilled) =
      some (getMetrics .fresh (.same 0 demoFilled)).1 := rfl
  have second : serve (getMetrics .fresh (.same 0 demoFilled)).1 (.prometheus demoDrained) =
      some (prometheusMetrics (getMetrics .fresh (.same 0 demoFilled)).1 demoDrained demoDrained) :=
    rfl
  have filled : depthOf demoFilled .pending = 1 := by decide
  have drained : depthOf demoDrained .pending = 0 := by decide
  have reported : Reported .pending
      [((getMetrics .fresh (.same 0 demoFilled)).1, .prometheus demoDrained),
        (.fresh, .json 0 demoFilled)] := by
    refine ⟨(.fresh, .json 0 demoFilled), by simp, ?_⟩
    exact Nat.lt_of_lt_of_eq Nat.one_pos filled.symm
  have stale :
      (prometheusMetrics (getMetrics .fresh (.same 0 demoFilled)).1 demoDrained
        demoDrained).queueDepth .pending = some 1 := by
    rw [queueDepth_serve second, queueDepth_serve first]
    simp [MetricsCall.db, drained, filled]
  refine ⟨_, _, (Run.single first).snoc second, fun agree => ?_, reported, drained, stale⟩
  have shown := (agree.1 .pending reported).1
  rw [stale, MetricsCall.db, drained] at shown
  cases shown

end TaskQueue
