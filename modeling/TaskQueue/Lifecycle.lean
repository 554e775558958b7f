/-
# TaskQueue.Lifecycle -- who a status write finds in the row

The four status writes select their row by id.  What they find is decided by the sweeps
since the claim: the writer's own row, or a row that a sweep took back, on which the
last writer wins.
-/
import TaskQueue.Ownership

namespace TaskQueue

set_option autoImplicit false

open Transition

/-- The life of a job, and the two ways a sweep leads back. -/
inductive Lifecycle : Status → Status → Prop
  | claim : Lifecycle .pending .claimed
  | run : Lifecycle .claimed .running
  | finish : Lifecycle .running .done
  | retry : Lifecycle .running .pending
  | bury : Lifecycle .running .dead
  | reapClaimed : Lifecycle .claimed .pending

section

variable {cfg : Config} {t₀ : Time} {db : Db} {t : History Sys Event} {s s' : Sys} {e : Event}
  {w : WorkerId} {job : Record}

/-- The row that a status write finds: its worker's own, or nobody's once it was taken back. -/
theorem row_of_write (run : Runs cfg t₀ db t s) (writes : StatusWrite s w job e) {r : Job}
    (row : s.db.jobs.row job.id = some r) :
    (¬ TakenBack cfg w job.id t →
        r.workerId = some w ∧ (s.stages w).status? = some r.status) ∧
      (TakenBack cfg w job.id t →
        r.workerId = none ∧ (r.status = .pending ∨
          (r.status = .running ∧ (s.stages w).status? = some .running))) := by
  obtain ⟨-, holds⟩ := tracked_of_run run w job writes.job
  exact ⟨(holds r row).kept, (holds r row).lost⟩

/-- A status that changes moves along the lifecycle, or is written to a row that a sweep
took back from the worker that writes. -/
theorem lifecycle_step (run : Runs cfg t₀ db t s) (taken : step cfg s e = some s') {j : JobId}
    {r r' : Job} (row : s.db.jobs.row j = some r) (row' : s'.db.jobs.row j = some r')
    (moves : r'.status ≠ r.status) :
    Lifecycle r.status r'.status ∨
      ∃ w job, StatusWrite s w job e ∧ job.id = j ∧ TakenBack cfg w j t := by
  have change := row_step run taken row
  rw [row'] at change
  -- a write of `w` to its job, from the status of its stage
  have written {w : WorkerId} {job : Record} {st : Stage} (writes : StatusWrite s w job e)
      (same : job.id = j) (holds : Holds st w job (TakenBack cfg w j t) r)
      (edge : ∀ status, st.status? = some status → Lifecycle status r'.status) :
      Lifecycle r.status r'.status ∨
        ∃ w job, StatusWrite s w job e ∧ job.id = j ∧ TakenBack cfg w j t := by
    by_cases back : TakenBack cfg w j t
    · exact .inr ⟨w, job, writes, same, back⟩
    · exact .inl (edge _ (holds.kept back).2)
  cases change with
  | keeps _ _ => exact absurd rfl moves
  | claims _ pending =>
      left
      rw [pending]
      exact .claim
  | marks _ writes same holds =>
      refine written writes same holds fun status from_ => ?_
      cases from_
      exact .run
  | succeeds _ writes same holds =>
      refine written writes same holds fun status from_ => ?_
      cases from_
      exact .finish
  | dies _ writes same holds _ =>
      refine written writes same holds fun status from_ => ?_
      cases from_
      exact .bury
  | retries _ writes same holds _ =>
      refine written writes same holds fun status from_ => ?_
      cases from_
      exact .retry
  | beats _ _ _ => exact absurd rfl moves
  | reclaims _ stale =>
      left
      rcases (Job.isStale_iff.1 stale).1 with claimed | running
      · rw [claimed]
        exact .reapClaimed
      · rw [running]
        exact .retry

end

/-- **Who a status write finds in the row.**  Unless a sweep took the row back since the
claim, it is the writer's, claimed or running; if one did, it is nobody's, pending or
running.  Every change of status follows the lifecycle, or is such a write to a row that
was taken back. -/
theorem status_write_owner (cfg : Config) (t₀ : Time) (db : Db) {t : History Sys Event} {s : Sys}
    (run : Runs cfg t₀ db t s) :
    (∀ e w job r, StatusWrite s w job e → s.db.jobs.row job.id = some r →
      (¬ TakenBack cfg w job.id t →
          r.workerId = some w ∧ (r.status = .claimed ∨ r.status = .running)) ∧
        (TakenBack cfg w job.id t →
          r.workerId = none ∧ (r.status = .pending ∨ r.status = .running))) ∧
      ∀ e s' j r r', step cfg s e = some s' → s.db.jobs.row j = some r →
        s'.db.jobs.row j = some r' → r'.status ≠ r.status →
        Lifecycle r.status r'.status ∨
          ∃ w job, StatusWrite s w job e ∧ job.id = j ∧ TakenBack cfg w j t := by
  refine ⟨?_, fun e s' j r r' taken row row' moves => lifecycle_step run taken row row' moves⟩
  intro e w job r writes row
  obtain ⟨kept, lost⟩ := row_of_write run writes row
  refine ⟨fun own => ⟨(kept own).1, ?_⟩, fun back => ⟨(lost back).1, ?_⟩⟩
  · have status := (kept own).2
    cases at_ : s.stages w with
    | idle =>
        rw [at_] at status
        cases status
    | claimed job =>
        rw [at_] at status
        exact .inl (Option.some.inj status).symm
    | running job =>
        rw [at_] at status
        exact .inr (Option.some.inj status).symm
  · exact (lost back).2.imp id And.left

/-- Job 1 is swept while its handler runs, and the handler returns. -/
def sweptRun : List Event :=
  [.createJob demoJob, .start 0, .worker ⟨0, 0⟩ (.connect true)] ++
    demoClaim ⟨0, 0⟩ [1] (some 1) ++
    [.worker ⟨0, 0⟩ (.markRunning false), .worker ⟨0, 0⟩ .startHandler, .tick 31] ++
    demoSweep 0 ++
    [.worker ⟨0, 0⟩ (.handlerEnds (.obj []) (.returns (.storable none)))]

/-- At the end of it the `'done'` UPDATE is about to hit a pending row of nobody. -/
theorem swept_run :
    ∃ t s job value r, Runs demo 0 .empty t s ∧ s.pc ⟨0, 0⟩ = .storing job (.storable value) ∧
      s.db.jobs.row job.id = some r ∧ r.status = .pending ∧ r.workerId = none := by
  obtain ⟨t, s, run, after⟩ := demo_run sweptRun
    (fun out =>
      (step demo out.2 (.worker ⟨0, 0⟩ (.storeDone none))).isSome ∧
        (out.2.stages ⟨0, 0⟩).job?.any fun job =>
          (out.2.db.jobs.row job.id).any fun r => r.status = .pending ∧ r.workerId = none)
    (by decide +kernel)
  simp only [decide_eq_true_eq, Option.any_eq_true] at after
  obtain ⟨enabled, job, has, r, row, facts⟩ := after
  obtain ⟨job', value, at_⟩ := storing_of_enabled enabled
  rw [Sys.stages, at_] at has
  cases has
  exact ⟨t, s, job, value, r, run, at_, row, facts⟩

/-- The sweep of that run is what `TakenBack` finds. -/
theorem status_write_owner_swept :
    ∃ t s job r, Runs demo 0 .empty t s ∧
      StatusWrite s ⟨0, 0⟩ job (.worker ⟨0, 0⟩ (.storeDone none)) ∧
      s.db.jobs.row job.id = some r ∧ TakenBack demo ⟨0, 0⟩ job.id t ∧ r.workerId = none := by
  obtain ⟨t, s, job, value, r, run, at_, row, pending, nobody⟩ := swept_run
  have finds := (status_write_owner demo 0 .empty run).1 _ _ _ _ (.done at_) row
  refine ⟨t, s, job, r, run, .done at_, row, ?_, nobody⟩
  by_contra own
  have mine := (finds.1 own).1
  rw [nobody] at mine
  cases mine

/-- The worker's result lands on a row that was taken back from it: `pending → done`. -/
theorem status_write_after_sweep :
    ∃ t s w job e s' r r', Runs demo 0 .empty t s ∧ StatusWrite s w job e ∧
      step demo s e = some s' ∧ s.db.jobs.row job.id = some r ∧ s'.db.jobs.row job.id = some r' ∧
      ¬ (r.workerId = some w ∧ (r.status = .claimed ∨ r.status = .running)) ∧
      ¬ Lifecycle r.status r'.status := by
  obtain ⟨t, s, job, value, r, run, at_, row, pending, nobody⟩ := swept_run
  have moved : s.runWorker demo ⟨0, 0⟩ (.storeDone none) =
      some
        { pc := .unlocking job.id false
          statement := some (.storeDone value ⟨0, 0⟩ job.id)
          locks := s.locks } := by
    simp [Sys.runWorker, runWorker, executeJob, at_]
  refine ⟨t, s, ⟨0, 0⟩, job, .worker ⟨0, 0⟩ (.storeDone none), _, r,
    r.setDone s.now value ⟨0, 0⟩, run, .done at_, step_of_moved moved, row, ?_, ?_, ?_⟩
  · rw [row_commit _ row]
    simp [rowAfter, Statement.onRow]
  · rw [nobody]
    rintro ⟨other, -⟩
    cases other
  · rw [pending]
    intro edge
    cases edge

end TaskQueue
