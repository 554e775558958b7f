/-
# TaskQueue.Cancellation -- a cancelled job and the workers

`DELETE /jobs/{id}` trusts `'pending'`: it takes the row for one that nobody executes.
A pending row is that of a job in execution exactly when a sweep took it back from a
worker that is still at it.  Once the row is gone nobody claims the job again, since
keys are never handed out twice.
-/
import TaskQueue.Ownership

namespace TaskQueue

set_option autoImplicit false

open Transition

/-- `w` awaits the handler of `j`. -/
def StartsHandler (cfg : Config) (s : Sys) (e : Event) (w : WorkerId) (j : JobId) : Prop :=
  ∃ job, s.pc w = .starting job ∧ job.id = j ∧ e = .worker w .startHandler ∧
    getHandler cfg job.type = .ok ()

/-- The job is gone for good: its key was handed out, has no row, and no worker has it. -/
structure Gone (s : Sys) (j : JobId) : Prop where
  old : j < s.db.jobs.next
  row : s.db.jobs.row j = none
  free : ∀ w, ¬ Executes s w j

section

variable {cfg : Config} {t₀ : Time} {db : Db} {t u : History Sys Event} {s s' s'' : Sys} {e : Event}
  {w : WorkerId} {j : JobId}

theorem gone_step (run : Runs cfg t₀ db t s) (gone : Gone s j) (taken : step cfg s e = some s') :
    Gone s' j := by
  refine ⟨?_, ?_, fun w executes => ?_⟩
  · rw [step_db taken]
    exact Nat.lt_of_lt_of_le gone.old (next_commit _ _ _)
  · rw [step_db taken]
    exact row_commit_none _ gone.row gone.old
  · rcases executes_step run taken executes with before | claims
    · exact gone.free w before
    · obtain ⟨_, _, _, _, -, -, -, -, row, -⟩ := claims_step taken claims
      cases gone.row.symm.trans row

/-- A job that is gone stays gone, and its handler is never started. -/
theorem gone_run (run : Runs cfg t₀ db t s) (gone : Gone s j) (rest : Run (step cfg) s u s') :
    Gone s' j ∧ ∀ a e w, (a, e) ∈ u → ¬ StartsHandler cfg a e w j := by
  induction rest with
  | nil => exact ⟨gone, fun _ _ _ member => by simp at member⟩
  | @snoc u a a' e before taken ih =>
      refine ⟨gone_step (run.append before) ih.1 taken, fun b e' w member starts => ?_⟩
      rcases List.mem_cons.1 member with now | earlier
      · cases now
        obtain ⟨job, at_, same, -, -⟩ := starts
        exact ih.1.free w ⟨job, by rw [Sys.stages, at_]; rfl, same⟩
      · exact ih.2 b e' w earlier starts

/-- A pending row that a worker executes was taken back from it. -/
theorem takenBack_of_pending (run : Runs cfg t₀ db t s) {r : Job} (row : s.db.jobs.row j = some r)
    (pending : r.status = .pending) (executes : Executes s w j) : TakenBack cfg w j t := by
  obtain ⟨job, at_, rfl⟩ := executes
  have holds := (tracked_of_run run w job at_).2 r row
  by_contra own
  have status := (holds.kept own).2
  rw [pending] at status
  cases stage : s.stages w with
  | idle => simp [stage, Stage.status?] at status
  | claimed _ => simp [stage, Stage.status?] at status
  | running _ => simp [stage, Stage.status?] at status

/-- The cancellation that answers 204 deletes the row. -/
theorem row_of_cancel (answers : (cancelJob s.db j).1 = .noContent)
    (taken : step cfg s (.cancelJob j) = some s') :
    j < s'.db.jobs.next ∧ s'.db.jobs.row j = none ∧ s'.pc = s.pc := by
  obtain ⟨r, row, pending⟩ := cancelJob_noContent_iff.1 answers
  have deletes : (cancelJob s.db j).2 = some (.deleteJob j) := by simp [cancelJob, row, pending]
  cases step_taken taken with
  | cancelJob id =>
      refine ⟨?_, ?_, rfl⟩
      · exact Nat.lt_of_lt_of_le (SerialTable.lt_next row) (next_commit _ _ _)
      · rw [deletes]
        exact row_commit _ row |>.trans (by simp [rowAfter, Statement.onRow])

end

/-- **When a cancellation excludes execution.**  A `cancel_job` that answers 204 finds no
worker between its claim of the job and its outcome write, and no worker starts the
handler afterwards, exactly when no worker still at the job has had its row taken back
by a sweep. -/
theorem cancel_exclusive_iff (cfg : Config) (t₀ : Time) (db : Db) {t : History Sys Event}
    {s s' : Sys} {j : JobId} (run : Runs cfg t₀ db t s)
    (answers : (cancelJob s.db j).1 = .noContent)
    (taken : step cfg s (.cancelJob j) = some s') :
    ((∀ w, ¬ Executes s w j) ∧
        ∀ u s'', Run (step cfg) s' u s'' →
          ∀ a e w, (a, e) ∈ u → ¬ StartsHandler cfg a e w j) ↔
      ∀ w, Executes s w j → ¬ TakenBack cfg w j t := by
  constructor
  · intro exclusive w executes
    exact absurd executes (exclusive.1 w)
  · intro own
    obtain ⟨r, row, pending⟩ := cancelJob_noContent_iff.1 answers
    obtain ⟨old, deleted, pcs⟩ := row_of_cancel answers taken
    have free : ∀ w, ¬ Executes s w j := fun w executes =>
      own w executes (takenBack_of_pending run row pending executes)
    refine ⟨free, fun u s'' rest => ?_⟩
    have gone : Gone s' j := by
      refine ⟨old, deleted, fun w executes => free w ?_⟩
      simpa only [Executes, Sys.stages, pcs] using executes
    exact (gone_run (run.snoc taken) gone rest).2

/-- Job 1 failed once, its second worker crashed with the row running, and the reaper of
another process swept it: now it is cancelled for good. -/
theorem cancel_exclusive_swept :
    ∃ t s s', Runs demo 0 .empty t s ∧ (∃ x ∈ t, x.2.sweeps = true) ∧
      (∃ r, s.db.jobs.row 1 = some r ∧ r.attempt = 1 ∧ r.heartbeatAt = none) ∧
      (cancelJob s.db 1).1 = .noContent ∧ step demo s (.cancelJob 1) = some s' ∧
      (∀ w, ¬ Executes s w 1) ∧
      ∀ u s'', Run (step demo) s' u s'' →
        ∀ a e w, (a, e) ∈ u → ¬ StartsHandler demo a e w 1 := by
  obtain ⟨t, s, run, after⟩ := demo_run
    ([.createJob demoJob, .start 0, .worker ⟨0, 0⟩ (.connect true)] ++
      demoClaim ⟨0, 0⟩ [1] (some 1) ++
      [.worker ⟨0, 0⟩ (.markRunning false), .worker ⟨0, 0⟩ .startHandler,
        .worker ⟨0, 0⟩ (.handlerEnds (.obj []) (.raises ⟨"ValueError", "bad"⟩)),
        .worker ⟨0, 0⟩ (.handleFailure false), .worker ⟨0, 0⟩ (.unlock false), .tick 10] ++
      demoClaim ⟨0, 0⟩ [1] (some 1) ++
      [.worker ⟨0, 0⟩ (.markRunning false), .worker ⟨0, 0⟩ .startHandler, .crash 0, .start 1,
        .tick 31] ++ demoSweep 1)
    (fun out => onlyWorker ⟨0, 0⟩ out.1 ∧ (out.2.stages ⟨0, 0⟩).job?.isNone ∧
      (out.1.any fun x => x.2.sweeps) ∧
      (out.2.db.jobs.row 1).any fun r =>
        r.attempt = 1 ∧ r.heartbeatAt = none ∧ r.status = .pending)
    (by decide +kernel)
  simp only [decide_eq_true_eq, Option.any_eq_true, List.any_eq_true, Option.isNone_iff_eq_none]
    at after
  obtain ⟨only, none_, sweeps, r, row, attempt, blank, pending⟩ := after
  have answers : (cancelJob s.db 1).1 = .noContent := cancelJob_noContent_iff.2 ⟨r, row, pending⟩
  have free : ∀ w, ¬ Executes s w 1 := by
    rintro w ⟨job, at_, -⟩
    by_cases crashed : w = ⟨0, 0⟩
    · rw [crashed, none_] at at_
      cases at_
    · rw [idle_of_only run (only_of_onlyWorker only) w crashed] at at_
      cases at_
  refine ⟨t, s, _, run, sweeps, ⟨r, row, attempt, blank⟩, answers, rfl,
    (cancel_exclusive_iff demo 0 .empty run answers rfl).2 fun w executes => ?_⟩
  exact absurd executes (free w)

/-- Job 1 is swept between its `'running'` UPDATE and its handler: the cancellation
answers 204 under the worker that executes it, and the handler starts afterwards. -/
theorem cancel_during_execution :
    ∃ t s s', Runs demo 0 .empty t s ∧ (cancelJob s.db 1).1 = .noContent ∧
      step demo s (.cancelJob 1) = some s' ∧ Executes s ⟨0, 0⟩ 1 ∧
      StartsHandler demo s' (.worker ⟨0, 0⟩ .startHandler) ⟨0, 0⟩ 1 ∧
      (step demo s' (.worker ⟨0, 0⟩ .startHandler)).isSome := by
  obtain ⟨t, s, run, after⟩ := demo_run
    ([.createJob demoJob, .start 0, .worker ⟨0, 0⟩ (.connect true)] ++
      demoClaim ⟨0, 0⟩ [1] (some 1) ++ [.worker ⟨0, 0⟩ (.markRunning false), .tick 31] ++
      demoSweep 0)
    (fun out => (step demo out.2 (.worker ⟨0, 0⟩ .startHandler)).isSome ∧
      ((out.2.stages ⟨0, 0⟩).job?.any fun job => job.id = 1 ∧ job.type ∈ demo.registry) ∧
      (out.2.db.jobs.row 1).any fun r => r.status = .pending)
    (by decide +kernel)
  simp only [decide_eq_true_eq, Option.any_eq_true] at after
  obtain ⟨enabled, ⟨job, has, first, known⟩, row⟩ := after
  obtain ⟨job', at_⟩ := starting_of_enabled enabled
  have executes : Executes s ⟨0, 0⟩ 1 := ⟨job, has, first⟩
  rw [Sys.stages, at_] at has
  cases has
  have handler : getHandler demo job.type = .ok () := if_pos known
  refine ⟨t, s, _, run, cancelJob_noContent_iff.2 row, rfl, executes, ?_, ?_⟩
  · exact ⟨job, at_, first, rfl, handler⟩
  · simp [step, control, Sys.runWorker, runWorker, executeJob, at_, handler]

end TaskQueue
