/-
# TaskQueue.Ownership -- what a worker finds in the row of its job

A worker writes the row of its job by id alone.  Between its claim and its outcome
write the lock keeps every other worker away, so only sweeps, its own heartbeats and a
cancellation reach the row: it is as the worker left it, or a sweep has taken it back.
`TakenBack` reads the latter off the history, `Holds` says what the row is in either
case, and `tracked_of_run` is the invariant.
-/
import TaskQueue.Change
import TaskQueue.Lib.RetryBudget

namespace TaskQueue

set_option autoImplicit false

open Transition

/-- The step is a sweep that resets the row of `j`. -/
def Sweeps (cfg : Config) (s : Sys) (e : Event) (j : JobId) : Prop :=
  committed cfg s e = some .reap ∧ ∃ r, s.db.jobs.row j = some r ∧ r.isStale s.now = true

/-- The UPDATE of a reaper. -/
def Event.sweeps : Event → Bool
  | .reaper _ .update => true
  | _ => false

/-- A sweep has reset the row of `j` since `w` last claimed it. -/
def TakenBack (cfg : Config) (w : WorkerId) (j : JobId) : History Sys Event → Prop
  | [] => False
  | (s, e) :: t => ¬ Claims cfg s e w j ∧ (Sweeps cfg s e j ∨ TakenBack cfg w j t)

/-- The status that a worker's own writes give the row. -/
def Stage.status? : Stage → Option Status
  | .idle => none
  | .claimed _ => some .claimed
  | .running _ => some .running

/-- The row of the job that `w` claimed, by whether a sweep took it `back`. -/
structure Holds (st : Stage) (w : WorkerId) (job : Record) (back : Prop) (r : Job) : Prop where
  attempt : r.attempt = job.attempt
  maxRetries : r.maxRetries = job.maxRetries
  type : r.type = job.type
  kept : ¬ back → r.workerId = some w ∧ st.status? = some r.status
  lost : back → r.workerId = none ∧
    (r.status = .pending ∨ (r.status = .running ∧ st.status? = some .running))

/-- Every worker's job is in the table as `Holds` says, or cancelled. -/
def Tracked (cfg : Config) (t : History Sys Event) (s : Sys) : Prop :=
  ∀ w job, (s.stages w).job? = some job →
    job.id < s.db.jobs.next ∧
      ∀ r, s.db.jobs.row job.id = some r →
        Holds (s.stages w) w job (TakenBack cfg w job.id t) r

/-- The outcome that a statement writes, and the job it writes it to. -/
def Statement.decides : Statement → Option (JobId × RetryBudget.Outcome)
  | .storeDone _ _ id => some (id, .success)
  | .bury id _ _ _ _ _ => some (id, .failure)
  | .retry _ _ id => some (id, .failure)
  | _ => none

theorem decides_handleFailure (cfg : Config) (job : Record) (error : PyError) (w : WorkerId) :
    (handleFailure cfg job error w).decides = some (job.id, .failure) := by
  unfold handleFailure
  split <;> rfl

theorem handleFailure_ne {cfg : Config} {job : Record} {error : PyError} {w : WorkerId}
    {st : Statement} (quiet : st.decides = none) : handleFailure cfg job error w ≠ st := by
  rintro rfl
  cases quiet.symm.trans (decides_handleFailure cfg job error w)

section

variable {cfg : Config} {t₀ : Time} {db : Db} {t : History Sys Event} {s s' : Sys} {e : Event}
  {w w' : WorkerId} {job : Record}

theorem rowAfter_handleFailure (now : Time) (j : JobId) (error : PyError) (r : Job) :
    rowAfter now j (some (handleFailure cfg job error w)) r =
      some
        (if j = job.id then
          if job.maxRetries ≤ job.attempt + 1 then r.setDead error.text
          else r.setRetry now (2 ^ job.attempt * cfg.baseDelay) error.text
        else r) := by
  unfold handleFailure
  split <;> rfl

theorem takenBack_cons {j : JobId} (keeps : ¬ Claims cfg s e w j) :
    TakenBack cfg w j ((s, e) :: t) ↔ Sweeps cfg s e j ∨ TakenBack cfg w j t :=
  ⟨fun back => back.2, fun back => ⟨keeps, back⟩⟩

theorem not_claims {j : JobId} {st : Option Statement} (commits : committed cfg s e = st)
    (other : ∀ startedAt, st ≠ some (.claim w j startedAt)) : ¬ Claims cfg s e w j := by
  rintro ⟨startedAt, claim⟩
  exact other startedAt (commits.symm.trans claim)

theorem not_sweeps {j : JobId} {st : Option Statement} (commits : committed cfg s e = st)
    (other : st ≠ some .reap) : ¬ Sweeps cfg s e j := by
  rintro ⟨reap, -⟩
  exact other (commits.symm.trans reap)

/-- A step that is no claim of `w` and no sweep of the job leaves `Holds` as it is, when it
leaves the row alone but for a heartbeat. -/
theorem holds_of_leaves (tracked : Tracked cfg t s) (taken : step cfg s e = some s')
    (stage : s'.stages w = s.stages w) (at_ : (s.stages w).job? = some job)
    (keeps : ¬ Claims cfg s e w job.id) (steady : ¬ Sweeps cfg s e job.id)
    (leaves : ∀ r r', s.db.jobs.row job.id = some r →
      rowAfter s.now job.id (committed cfg s e) r = some r' → r' = r ∨ r' = r.setHeartbeat s.now) :
    job.id < s'.db.jobs.next ∧
      ∀ r, s'.db.jobs.row job.id = some r →
        Holds (s'.stages w) w job (TakenBack cfg w job.id ((s, e) :: t)) r := by
  obtain ⟨old, holds⟩ := tracked w job at_
  rw [step_db taken, stage, takenBack_cons keeps, or_iff_right steady]
  refine ⟨Nat.lt_of_lt_of_le old (next_commit _ _ _), fun r' row' => ?_⟩
  obtain ⟨r, row, after⟩ := row_before _ old row'
  have before := holds r row
  rcases leaves r r' row after with rfl | rfl
  · exact before
  · exact ⟨before.attempt, before.maxRetries, before.type, before.kept, before.lost⟩

/-- Two workers never have one job. -/
theorem job_ne (run : Runs cfg t₀ db t s) {job' : Record} (at_ : (s.stages w).job? = some job)
    (at' : (s.stages w').job? = some job') (ne : w' ≠ w) : job.id ≠ job'.id := by
  intro same
  have held := Pc.held_of_job at_
  rw [same] at held
  exact ne (held_unique run (Pc.held_of_job at') held)

/-- A worker that keeps its stage keeps `Holds`, whatever the step. -/
theorem holds_step (run : Runs cfg t₀ db t s) (tracked : Tracked cfg t s)
    (taken : step cfg s e = some s') (stage : s'.stages w = s.stages w)
    (at_ : (s.stages w).job? = some job) :
    job.id < s'.db.jobs.next ∧
      ∀ r, s'.db.jobs.row job.id = some r →
        Holds (s'.stages w) w job (TakenBack cfg w job.id ((s, e) :: t)) r := by
  have held := Pc.held_of_job at_
  -- a statement that does not touch the row
  have aside {st : Option Statement} (commits : committed cfg s e = st)
      (claims : ∀ startedAt, st ≠ some (.claim w job.id startedAt)) (sweep : st ≠ some .reap)
      (away : ∀ r r', rowAfter s.now job.id st r = some r' → r' = r) := by
    refine holds_of_leaves tracked taken stage at_ (not_claims commits claims)
      (not_sweeps commits sweep) fun r r' _ after => ?_
    rw [commits] at after
    exact .inl (away r r' after)
  -- the author of the step moves its own stage, so it is another worker, with another job
  have other {w₀ : WorkerId} {st₀ st : Stage} {job₀ : Record} (before : s.stages w₀ = st₀)
      (has : st₀.job? = some job₀) (stages : s'.stages = Function.update s.stages w₀ st)
      (moves : st ≠ st₀) : job.id ≠ job₀.id := by
    refine job_ne run at_ ((congrArg Stage.job? before).trans has) ?_
    rintro rfl
    rw [stages, Function.update_self, before] at stage
    exact moves stage
  cases change_of_run run taken with
  | @claims w₀ id startedAt r commits idle free row pending stages =>
      have away : job.id ≠ id := fun same => free w (same ▸ held)
      refine aside commits (by simp [Ne.symm away]) (by simp) fun r r' after => ?_
      simpa [rowAfter, Statement.onRow, away, eq_comm] using after
  | @marks w₀ job₀ commits _ before stages =>
      have away := other before rfl stages (by simp)
      refine aside commits (by simp) (by simp) fun r r' after => ?_
      simpa [rowAfter, Statement.onRow, away, eq_comm] using after
  | @succeeds w₀ job₀ value commits _ before stages =>
      have away := other before rfl stages (by simp)
      refine aside commits (by simp) (by simp) fun r r' after => ?_
      simpa [rowAfter, Statement.onRow, away, eq_comm] using after
  | @fails w₀ job₀ error commits _ before stages =>
      have away := other before rfl stages (by simp)
      refine aside commits (fun _ same => handleFailure_ne rfl (Option.some.inj same))
        (fun same => handleFailure_ne rfl (Option.some.inj same)) fun r r' after => ?_
      rw [rowAfter_handleFailure, if_neg away] at after
      exact (Option.some.inj after).symm
  | @heartbeats w₀ commits stages =>
      refine holds_of_leaves tracked taken stage at_ (not_claims commits (by simp))
        (not_sweeps commits (by simp)) ?_
      intro r r' _ after
      rw [commits] at after
      cases Option.some.inj after
      split
      · exact .inr rfl
      · exact .inl rfl
  | reaps commits stages =>
      have keeps : ¬ Claims cfg s e w job.id := not_claims commits (by simp)
      by_cases sweeps : Sweeps cfg s e job.id
      · obtain ⟨-, r, row, stale⟩ := sweeps
        obtain ⟨old, holds⟩ := tracked w job at_
        have before := holds r row
        rw [step_db taken, stage]
        refine ⟨Nat.lt_of_lt_of_le old (next_commit _ _ _), fun r' row' => ?_⟩
        rw [row_commit _ row, commits] at row'
        simp only [rowAfter, Statement.onRow, stale, if_true, Option.some.injEq] at row'
        subst row'
        have back : TakenBack cfg w job.id ((s, e) :: t) :=
          (takenBack_cons keeps).2 (.inl ⟨commits, r, row, stale⟩)
        exact ⟨before.attempt, before.maxRetries, before.type, fun kept => absurd back kept,
          fun _ => ⟨rfl, .inl rfl⟩⟩
      · refine holds_of_leaves tracked taken stage at_ keeps sweeps fun r r' row after => ?_
        have fresh : ¬ r.isStale s.now = true := fun stale => sweeps ⟨commits, r, row, stale⟩
        rw [commits] at after
        simp only [rowAfter, Statement.onRow, fresh, Option.some.injEq] at after
        exact .inl after.symm
  | inserts commits stages =>
      exact aside commits (by simp) (by simp) fun r r' after => (Option.some.inj after).symm
  | @deletes id r₀ commits row pending stages =>
      refine aside commits (by simp) (by simp) fun r r' after => ?_
      simp only [rowAfter, Statement.onRow, Option.ite_none_left_eq_some] at after
      exact (Option.some.inj after.2).symm
  | carries commits before stages =>
      exact aside commits (by simp) (by simp) fun r r' after => (Option.some.inj after).symm
  | quiet commits _ =>
      exact aside commits (by simp) (by simp) fun r r' after => (Option.some.inj after).symm

/-- **The row of a job in execution.** -/
theorem tracked_of_run (run : Runs cfg t₀ db t s) : Tracked cfg t s := by
  refine run.invariant (P := Tracked cfg) ?_ ?_
  · intro w job at_
    cases at_
  intro t s e s' run tracked taken w job at_
  by_cases stage : s'.stages w = s.stages w
  · rw [stage] at at_
    exact holds_step run tracked taken stage at_
  -- the worker's own step
  cases change_of_run run taken with
  | @claims w₀ id startedAt r commits idle free row pending stages =>
      obtain ⟨rfl, after⟩ := mine_of_update stages stage
      rw [after] at at_ ⊢
      cases at_
      refine ⟨?_, fun r' row' => ?_⟩
      · rw [step_db taken]
        exact Nat.lt_of_lt_of_le (SerialTable.lt_next row) (next_commit _ _ _)
      · have claimed : Claims cfg s e w id := ⟨startedAt, commits⟩
        rw [step_db taken, commits, Record.ofRow, row_commit _ row] at row'
        simp only [rowAfter, Statement.onRow, if_true, Option.some.injEq] at row'
        subst row'
        exact ⟨rfl, rfl, rfl, fun _ => ⟨rfl, rfl⟩, fun back => absurd claimed back.1⟩
  | @marks w₀ job₀ commits _ before stages =>
      obtain ⟨rfl, after⟩ := mine_of_update stages stage
      rw [after] at at_ ⊢
      cases at_
      obtain ⟨old, holds⟩ := tracked w job (congrArg Stage.job? before)
      have keeps : ¬ Claims cfg s e w job.id := not_claims commits (by simp)
      have steady : ¬ Sweeps cfg s e job.id := not_sweeps commits (by simp)
      rw [step_db taken, takenBack_cons keeps, or_iff_right steady]
      refine ⟨Nat.lt_of_lt_of_le old (next_commit _ _ _), fun r' row' => ?_⟩
      obtain ⟨r, row, runs⟩ := row_before _ old row'
      rw [commits] at runs
      simp only [rowAfter, Statement.onRow, if_true, Option.some.injEq] at runs
      subst runs
      have was := holds r row
      exact ⟨was.attempt, was.maxRetries, was.type, fun kept => ⟨(was.kept kept).1, rfl⟩,
        fun back => ⟨(was.lost back).1, .inr ⟨rfl, rfl⟩⟩⟩
  | @carries w₀ job₀ payload commits before stages =>
      obtain ⟨rfl, after⟩ := mine_of_update stages stage
      rw [after] at at_ ⊢
      cases at_
      obtain ⟨old, holds⟩ := tracked w job₀ (congrArg Stage.job? before)
      have keeps : ¬ Claims cfg s e w job₀.id := not_claims commits (by simp)
      have steady : ¬ Sweeps cfg s e job₀.id := not_sweeps commits (by simp)
      rw [step_db taken, commits, takenBack_cons keeps, or_iff_right steady]
      refine ⟨old, fun r row => ?_⟩
      have was := holds r row
      rw [before] at was
      exact ⟨was.attempt, was.maxRetries, was.type, was.kept, was.lost⟩
  | succeeds _ _ _ stages =>
      rw [(mine_of_update stages stage).2] at at_
      cases at_
  | fails _ _ _ stages =>
      rw [(mine_of_update stages stage).2] at at_
      cases at_
  | quiet _ stages =>
      rw [(stages w).resolve_left stage] at at_
      cases at_
  | heartbeats _ stages => exact absurd (congrFun stages w) stage
  | reaps _ stages => exact absurd (congrFun stages w) stage
  | inserts _ stages => exact absurd (congrFun stages w) stage
  | deletes _ _ _ stages => exact absurd (congrFun stages w) stage

/-! ## One row along a step -/

/-- A job that still has an outcome to come. -/
def Job.Live (r : Job) : Prop := r.status = .pending ∨ r.status = .claimed ∨ r.status = .running

theorem Holds.live {st : Stage} {back : Prop} {r : Job} (holds : Holds st w job back r) :
    r.Live := by
  by_cases taken : back
  · rcases (holds.lost taken).2 with pending | ⟨running, -⟩
    · exact .inl pending
    · exact .inr (.inr running)
  · have status := (holds.kept taken).2
    cases st with
    | idle => cases status
    | claimed _ => exact .inr (.inl (Option.some.inj status).symm)
    | running _ => exact .inr (.inr (Option.some.inj status).symm)

/-- A row that was not taken back has the status of its worker's stage. -/
theorem Holds.status_eq {st : Stage} {back : Prop} {r : Job} {status : Status}
    (holds : Holds st w job back r) (own : ¬ back) (stage : st.status? = some status) :
    r.status = status :=
  Option.some.inj ((holds.kept own).2.symm.trans stage)

theorem Job.Live.not_done {r : Job} (live : r.Live) : r.status ≠ .done := by
  rcases live with status | status | status <;> simp [status]

theorem Job.Live.not_dead {r : Job} (live : r.Live) : r.status ≠ .dead := by
  rcases live with status | status | status <;> simp [status]

theorem Job.not_live_of_final {r : Job} (final : r.status = .done ∨ r.status = .dead) :
    ¬ r.Live := by
  intro live
  rcases final with done | dead
  · exact live.not_done done
  · exact live.not_dead dead

/-- Whoever has the job of an owned row is its owner. -/
theorem Holds.owner {st : Stage} {back : Prop} {r : Job} (holds : Holds st w job back r)
    (own : r.workerId = some w') : w = w' := by
  by_cases taken : back
  · cases own.symm.trans (holds.lost taken).1
  · exact Option.some.inj ((holds.kept taken).1.symm.trans own)

/-- The outcome that a step writes to job `j`. -/
def decided (cfg : Config) (s : Sys) (e : Event) (j : JobId) : Option RetryBudget.Outcome :=
  match (committed cfg s e).bind Statement.decides with
  | some (id, o) => if id = j then some o else none
  | none => none

theorem decided_none {j : JobId} {st : Statement} (commits : committed cfg s e = some st)
    (quiet : st.decides = none) : decided cfg s e j = none := by
  simp [decided, commits, quiet]

theorem decided_some {j : JobId} {st : Statement} {o : RetryBudget.Outcome}
    (commits : committed cfg s e = some st) (writes : st.decides = some (j, o)) :
    decided cfg s e j = some o := by
  simp [decided, commits, writes]

theorem decided_eq_some {j : JobId} {o : RetryBudget.Outcome} :
    decided cfg s e j = some o ↔ (committed cfg s e).bind Statement.decides = some (j, o) := by
  unfold decided
  split
  · rename_i id o' decides
    by_cases same : id = j
    · simp [decides, same]
    · simp [decides, same]
  · rename_i decides
    simp [decides]

/-- After its outcome write nobody executes the job. -/
theorem not_executes_of_decided (run : Runs cfg t₀ db t s) (taken : step cfg s e = some s')
    {j : JobId} {o : RetryBudget.Outcome} (writes : decided cfg s e j = some o) (w : WorkerId) :
    ¬ Executes s' w j := by
  rw [decided_eq_some] at writes
  -- the author of the outcome write goes idle, and nobody else had its job
  have alone {w₀ : WorkerId} {job₀ : Record} (before : s.stages w₀ = .running job₀)
      (same : job₀.id = j) (stages : s'.stages = Function.update s.stages w₀ .idle) :
      ¬ Executes s' w j := by
    rintro ⟨job, at_, same'⟩
    rcases stages_update stages w with ⟨-, idle⟩ | ⟨other, keeps⟩
    · rw [idle] at at_
      cases at_
    · rw [keeps] at at_
      exact job_ne run (congrArg Stage.job? before) at_ other (same.trans same'.symm)
  cases change_of_run run taken with
  | claims commits _ _ _ _ _ => simp [commits, Statement.decides] at writes
  | marks commits _ _ _ => simp [commits, Statement.decides] at writes
  | carries commits _ _ => simp [commits] at writes
  | succeeds commits _ before stages =>
      simp only [commits, Option.bind_some, Statement.decides, Option.some.injEq,
        Prod.mk.injEq] at writes
      exact alone before writes.1 stages
  | fails commits _ before stages =>
      simp only [commits, Option.bind_some, decides_handleFailure, Option.some.injEq,
        Prod.mk.injEq] at writes
      exact alone before writes.1 stages
  | heartbeats commits _ => simp [commits, Statement.decides] at writes
  | reaps commits _ => simp [commits, Statement.decides] at writes
  | inserts commits _ => simp [commits, Statement.decides] at writes
  | deletes commits _ _ _ => simp [commits, Statement.decides] at writes
  | quiet commits _ => simp [commits] at writes

/-- What one step of a run does to a row that is there: nothing, or one of the program's
statements, with what that statement's author knows of the row. -/
inductive RowStep (cfg : Config) (t : History Sys Event) (s : Sys) (e : Event) (j : JobId)
    (r : Job) : Option Job → Prop
  | keeps (undecided : decided cfg s e j = none) (stays : committed cfg s e ≠ some (.deleteJob j)) :
      RowStep cfg t s e j r (some r)
  | claims {w : WorkerId} {startedAt : Time}
      (commits : committed cfg s e = some (.claim w j startedAt)) (pending : r.status = .pending) :
      RowStep cfg t s e j r (some (r.setClaimed startedAt w))
  | marks {w : WorkerId} {job : Record} (commits : committed cfg s e = some (.markRunning j))
      (writes : StatusWrite s w job e) (same : job.id = j)
      (holds : Holds (.claimed job) w job (TakenBack cfg w j t) r) :
      RowStep cfg t s e j r (some (r.setRunning s.now))
  | succeeds {w : WorkerId} {job : Record} {value : Option Json}
      (commits : committed cfg s e = some (.storeDone value w j))
      (writes : StatusWrite s w job e) (same : job.id = j)
      (holds : Holds (.running job) w job (TakenBack cfg w j t) r) :
      RowStep cfg t s e j r (some (r.setDone s.now value w))
  | dies {w : WorkerId} {job : Record} {payload : Json} {error : String}
      (commits : committed cfg s e = some (.bury j r.type payload error (r.attempt + 1) w))
      (writes : StatusWrite s w job e) (same : job.id = j)
      (holds : Holds (.running job) w job (TakenBack cfg w j t) r)
      (spent : r.maxRetries ≤ r.attempt + 1) :
      RowStep cfg t s e j r (some (r.setDead error))
  | retries {w : WorkerId} {job : Record} {backoff : Time} {error : String}
      (commits : committed cfg s e = some (.retry backoff error j))
      (writes : StatusWrite s w job e) (same : job.id = j)
      (holds : Holds (.running job) w job (TakenBack cfg w j t) r)
      (left : r.attempt + 1 < r.maxRetries) :
      RowStep cfg t s e j r (some (r.setRetry s.now backoff error))
  | beats {w : WorkerId} (commits : committed cfg s e = some (.heartbeat w))
      (own : r.workerId = some w) (running : r.status = .running) :
      RowStep cfg t s e j r (some (r.setHeartbeat s.now))
  | reclaims (commits : committed cfg s e = some .reap) (stale : r.isStale s.now = true) :
      RowStep cfg t s e j r (some r.setReclaimed)
  | deletes (commits : committed cfg s e = some (.deleteJob j)) (pending : r.status = .pending) :
      RowStep cfg t s e j r none

/-- **The inversion of a step at one row.** -/
theorem row_step (run : Runs cfg t₀ db t s) (taken : step cfg s e = some s') {j : JobId} {r : Job}
    (row : s.db.jobs.row j = some r) : RowStep cfg t s e j r (s'.db.jobs.row j) := by
  rw [step_db taken, row_commit _ row]
  have holds {w : WorkerId} {job : Record} (writes : StatusWrite s w job e) (same : j = job.id) :
      Holds (s.stages w) w job (TakenBack cfg w j t) r := by
    subst same
    exact (tracked_of_run run w job writes.job).2 r row
  have untouched {st : Statement} (commits : committed cfg s e = some st)
      (away : st.onRow s.now j r = some r)
      (undecided : ∀ id o, st.decides = some (id, o) → j ≠ id) :
      RowStep cfg t s e j r (rowAfter s.now j (committed cfg s e) r) := by
    have undecided' : decided cfg s e j = none := by
      simp only [decided, commits, Option.bind_some]
      split
      · rename_i id o decides
        exact if_neg (undecided id o decides).symm
      · rfl
    rw [commits]
    simp only [rowAfter, away]
    refine .keeps undecided' ?_
    rw [commits]
    rintro same
    cases same
    simp [Statement.onRow] at away
  cases change_of_run run taken with
  | @claims w id startedAt r₀ commits _ _ row₀ pending _ =>
      by_cases target : j = id
      · subst target
        cases row.symm.trans row₀
        simp only [commits, rowAfter, Statement.onRow, if_true]
        exact .claims commits pending
      · exact untouched commits (by simp [Statement.onRow, target]) (by simp [Statement.decides])
  | @marks w job commits writes at_ _ =>
      by_cases target : j = job.id
      · have known := holds writes target
        rw [at_] at known
        subst target
        simp only [commits, rowAfter, Statement.onRow, if_true]
        exact .marks commits writes rfl known
      · exact untouched commits (by simp [Statement.onRow, target]) (by simp [Statement.decides])
  | carries commits _ _ =>
      rw [commits]
      exact .keeps (by simp [decided, commits]) (by simp [commits])
  | @succeeds w job value commits writes at_ _ =>
      by_cases target : j = job.id
      · have known := holds writes target
        rw [at_] at known
        subst target
        simp only [commits, rowAfter, Statement.onRow, if_true]
        exact .succeeds commits writes rfl known
      · refine untouched commits (by simp [Statement.onRow, target]) ?_
        rintro id o decides rfl
        cases decides
        exact target rfl
  | @fails w job error commits writes at_ _ =>
      by_cases target : j = job.id
      · have known := holds writes target
        rw [at_] at known
        subst target
        rw [commits, rowAfter_handleFailure, if_pos rfl]
        unfold handleFailure at commits
        split
        · rename_i spent
          rw [if_pos spent, ← known.attempt, ← known.type] at commits
          rw [← known.attempt, ← known.maxRetries] at spent
          exact .dies commits writes rfl known spent
        · rename_i left
          rw [if_neg left] at commits
          rw [← known.attempt, ← known.maxRetries] at left
          exact .retries commits writes rfl known (by omega)
      · refine untouched commits ?_ ?_
        · have same : rowAfter s.now j (some (handleFailure cfg job error w)) r = some r := by
            rw [rowAfter_handleFailure, if_neg target]
          exact same
        · rintro id o decides rfl
          rw [decides_handleFailure] at decides
          cases decides
          exact target rfl
  | @heartbeats w commits _ =>
      by_cases hit : r.beatsFor w = true
      · simp only [commits, rowAfter, Statement.onRow, hit, if_true]
        obtain ⟨own, running⟩ := Job.beatsFor_iff.1 hit
        exact .beats commits own running
      · exact untouched commits (by simp [Statement.onRow, hit]) (by simp [Statement.decides])
  | reaps commits _ =>
      by_cases stale : r.isStale s.now = true
      · simp only [commits, rowAfter, Statement.onRow, stale, if_true]
        exact .reclaims commits stale
      · exact untouched commits (by simp [Statement.onRow, stale]) (by simp [Statement.decides])
  | inserts commits _ => exact untouched commits rfl (by simp [Statement.decides])
  | @deletes id r₀ commits row₀ pending _ =>
      by_cases target : j = id
      · subst target
        cases row.symm.trans row₀
        simp only [commits, rowAfter, Statement.onRow, if_true]
        exact .deletes commits pending
      · exact untouched commits (by simp [Statement.onRow, target]) (by simp [Statement.decides])
  | quiet commits _ =>
      rw [commits]
      exact .keeps (by simp [decided, commits]) (by simp [commits])

end

end TaskQueue
