/-
# TaskQueue.Draining -- sweeps and workers that finish their job after the signal

The tasks of a process watch one `shutdown_event` and leave at different points:
`run_worker` finishes its job, `heartbeat_loop` stops before its next write.  So from the
signal on `heartbeat_at` of a draining job stands still while the clocks of the other
processes run, and their sweeps take the row once the threshold has passed.

* `Drains` reads off the history that a worker executed a job at the signal and has
  executed it ever since.
* `kept_of_draining` is the invariant: the sweeps that come in time leave the row alone.
-/
import TaskQueue.Cancellation
import TaskQueue.ProofOfLife
import TaskQueue.Punctuality

namespace TaskQueue

set_option autoImplicit false

open Transition

/-- The signal of process `p`. -/
def Event.shutsDown (p : ProcId) : Event → Bool
  | .shutdown q => q = p
  | _ => false

theorem Event.shutsDown_iff {e : Event} {p : ProcId} :
    e.shutsDown p = true ↔ e = .shutdown p := by
  cases e <;> simp [Event.shutsDown]

/-- `w` executed `j` when `shutdown_event` of its process was set, and still does. -/
def Drains (w : WorkerId) (j : JobId) : History Sys Event → Sys → Prop
  | [], _ => False
  | (a, e) :: t, s =>
      Executes s w j ∧ ((e = .shutdown w.proc ∧ Executes a w j) ∨ Drains w j t a)

/-- A draining job's row is claimed or running under its worker. -/
def KeepsRow (w : WorkerId) (j : JobId) (t : History Sys Event) (s : Sys) : Prop :=
  Drains w j t s → Owns s w j

/-- The step, if it is a sweep of another process, leaves the row of a draining job alone. -/
def SparesDraining (cfg : Config) (w : WorkerId) (j : JobId) (t : History Sys Event) (s : Sys)
    (e : Event) : Prop :=
  Drains w j t s → ∀ p, p ≠ w.proc → e = .reaper p .update → ¬ Sweeps cfg s e j

/-- The step, if it is a sweep, comes in time for `w`: within the threshold of its last sign
of life, or, before its `'running'` UPDATE, of any `heartbeat_at` of an earlier attempt. -/
def InTime (w : WorkerId) (j : JobId) (t : History Sys Event) (s : Sys) (e : Event) : Prop :=
  e.sweeps = true →
    ((s.stages w).status? = some .running →
        ∀ τ ∈ lastAt Sys.now (signals w) t, s.now ≤ τ + staleThreshold) ∧
      ((s.stages w).status? = some .claimed →
        ∀ r ∈ s.db.jobs.row j, ∀ h ∈ r.heartbeatAt, s.now ≤ h + staleThreshold)

instance (w : WorkerId) (j : JobId) (t : History Sys Event) (s : Sys) (e : Event) :
    Decidable (InTime w j t s e) :=
  inferInstanceAs (Decidable (_ → _))

/-- The signal does not find the row of `j` taken back from `w`, and sweeps while `w` drains
come in time. -/
def DrainsInTime (cfg : Config) (w : WorkerId) (j : JobId) (t : History Sys Event) (s : Sys)
    (e : Event) : Prop :=
  (e = .shutdown w.proc → Executes s w j → ¬ TakenBack cfg w j t) ∧
    (Drains w j t s → InTime w j t s e)

instance (s : Sys) (w : WorkerId) (j : JobId) : Decidable (Executes s w j) :=
  decidable_of_iff ((s.stages w).job?.any fun job => job.id = j) (by
    simp [Executes, Option.any_eq_true])

instance Drains.decidable (w : WorkerId) (j : JobId) : ∀ t s, Decidable (Drains w j t s)
  | [], _ => inferInstanceAs (Decidable False)
  | (a, e) :: t, _ =>
      have := Drains.decidable w j t a
      have : Decidable (e = .shutdown w.proc) :=
        decidable_of_iff (e.shutsDown w.proc = true) Event.shutsDown_iff
      inferInstanceAs (Decidable (_ ∧ (_ ∧ _ ∨ _)))

section

variable {cfg : Config} {t₀ : Time} {db : Db} {t : History Sys Event} {s s' : Sys} {e : Event}
  {w : WorkerId} {j : JobId} {r r' : Job}

theorem Drains.executes (drains : Drains w j t s) : Executes s w j := by
  cases t with
  | nil => exact drains.elim
  | cons x t => exact drains.1

/-- The row of a job in execution is there, unless it was taken back. -/
theorem row_of_kept (run : Runs cfg t₀ db t s) :
    Executes s w j → ¬ TakenBack cfg w j t → ∃ r, s.db.jobs.row j = some r := by
  refine run.invariant (P := fun t s => Executes s w j → ¬ TakenBack cfg w j t →
    ∃ r, s.db.jobs.row j = some r) ?_ ?_
  · rintro ⟨job, at_, -⟩
    cases at_
  intro t s e s' run ih taken executes kept
  by_cases claims : Claims cfg s e w j
  · obtain ⟨_, _, _, r, -, -, -, -, row, -⟩ := claims_step taken claims
    obtain ⟨startedAt, commits⟩ := claims
    refine ⟨r.setClaimed startedAt w, ?_⟩
    rw [step_db taken, commits, row_commit _ row]
    simp [rowAfter, Statement.onRow]
  · have before := (executes_step run taken executes).resolve_right claims
    have kept' : ¬ TakenBack cfg w j t := fun back => kept ⟨claims, .inr back⟩
    obtain ⟨r, row⟩ := ih before kept'
    have change := row_step run taken row
    generalize s'.db.jobs.row j = after at change
    cases change with
    | deletes _ pending => exact absurd (takenBack_of_pending run row pending before) kept'
    | _ => exact ⟨_, rfl⟩

/-- A worker at a job owns its row exactly when no sweep took it back. -/
theorem owns_iff_kept (run : Runs cfg t₀ db t s) (executes : Executes s w j) :
    Owns s w j ↔ ¬ TakenBack cfg w j t := by
  obtain ⟨job, at_, rfl⟩ := executes
  constructor
  · rintro ⟨r, row, own, -⟩ back
    have holds := (tracked_of_run run w job at_).2 r row
    cases own.symm.trans (holds.lost back).1
  · intro kept
    obtain ⟨r, row⟩ := row_of_kept run ⟨job, at_, rfl⟩ kept
    have holds := (tracked_of_run run w job at_).2 r row
    obtain ⟨own, status⟩ := holds.kept kept
    refine ⟨r, row, own, ?_⟩
    cases stage : s.stages w with
    | idle =>
        rw [stage] at at_
        cases at_
    | claimed _ =>
        rw [stage] at status
        exact .inl (Option.some.inj status).symm
    | running _ =>
        rw [stage] at status
        exact .inr (Option.some.inj status).symm

/-- A claimed or running row is spared by a sweep within the threshold of its heartbeat. -/
theorem Job.not_stale_iff {now : Time} (status : r.status = .claimed ∨ r.status = .running) :
    ¬ r.isStale now = true ↔ ∀ h ∈ r.heartbeatAt, now ≤ h + staleThreshold := by
  rw [Job.isStale_iff]
  constructor
  · intro fresh h set
    by_contra late
    exact fresh ⟨status, h, set, by linarith⟩
  · rintro recent ⟨-, h, set, old⟩
    have inTime := recent h set
    linarith

/-- **When a sweep spares a job in execution**: exactly when it comes in time. -/
theorem spares_iff_inTime (run : Runs cfg t₀ db t s) (sweeps : e.sweeps = true)
    (executes : Executes s w j) (kept : ¬ TakenBack cfg w j t) :
    ¬ Sweeps cfg s e j ↔ InTime w j t s e := by
  have reap : committed cfg s e = some .reap := by
    unfold Event.sweeps at sweeps
    split at sweeps
    · rfl
    · cases sweeps
  obtain ⟨r, row, own, status⟩ := (owns_iff_kept run executes).2 kept
  obtain ⟨job, at_, rfl⟩ := executes
  have swept : ¬ Sweeps cfg s e job.id ↔ ∀ h ∈ r.heartbeatAt, s.now ≤ h + staleThreshold := by
    rw [← Job.not_stale_iff status]
    simp [Sweeps, reap, row]
  rw [swept, InTime, sweeps]
  cases stage : s.stages w with
  | idle =>
      rw [stage] at at_
      cases at_
  | claimed job₀ => simp [Stage.status?, row]
  | running job₀ =>
      rw [stage] at at_
      cases at_
      -- the row shows the last sign of life
      have last := heartbeatAt_eq_last run w job r stage row kept
      simp [Stage.status?, last]

/-- Sweeps that come in time take no draining job back. -/
theorem kept_of_draining (run : Runs cfg t₀ db t s) (inTime : EachStep (DrainsInTime cfg w j) t) :
    Throughout (fun t s => Drains w j t s → ¬ TakenBack cfg w j t) t s := by
  refine run.throughout (fun drains => drains.elim) ?_ inTime
  rintro t s e s' run ih ⟨atSignal, later⟩ taken ⟨executes, since⟩ ⟨-, back⟩
  rcases since with ⟨rfl, before⟩ | drains
  · rcases back with ⟨reap, -⟩ | earlier
    · cases reap
    · exact atSignal rfl before earlier
  · have kept := ih drains
    rcases back with sweeps | earlier
    · obtain ⟨p, rfl⟩ := reap_event taken sweeps.1
      exact (spares_iff_inTime run rfl drains.executes kept).2 (later drains) sweeps
    · exact kept earlier

/-- A step after which the row of a draining job is still its worker's came in time. -/
theorem inTime_of_keeps (run : Runs cfg t₀ db t s) (taken : step cfg s e = some s')
    (before : KeepsRow w j t s) (after : KeepsRow w j ((s, e) :: t) s') :
    DrainsInTime cfg w j t s e := by
  -- neither the signal nor a sweep moves a worker
  have kept' (still : Executes s w j → Executes s' w j)
      (drains : Executes s' w j → Drains w j ((s, e) :: t) s') (executes : Executes s w j) :
      ¬ TakenBack cfg w j ((s, e) :: t) :=
    (owns_iff_kept (run.snoc taken) (still executes)).1 (after (drains (still executes)))
  refine ⟨fun signal executes back => ?_, fun drains sweeps => ?_⟩
  · subst signal
    have noClaim : ¬ Claims cfg s (.shutdown w.proc) w j := by
      rintro ⟨_, commits⟩
      cases commits
    have still : Executes s w j → Executes s' w j := by
      cases step_taken taken with
      | shutdown up => exact id
    exact kept' still (fun there => ⟨there, .inl ⟨rfl, executes⟩⟩) executes
      ⟨noClaim, .inr back⟩
  · have kept := (owns_iff_kept run drains.executes).1 (before drains)
    refine (spares_iff_inTime run sweeps drains.executes kept).1 (fun swept => ?_) sweeps
    obtain ⟨p, rfl⟩ := reap_event taken swept.1
    have noClaim : ¬ Claims cfg s (.reaper p .update) w j := by
      rintro ⟨_, commits⟩
      cases commits
    have still : Executes s w j → Executes s' w j := by
      cases step_taken taken with
      | reaper next => exact id
    exact kept' still (fun there => ⟨there, .inr drains⟩) drains.executes
      ⟨noClaim, .inl swept⟩

end

/-- **When draining is safe.**  For a worker and a job that it executes when
`shutdown_event` of its process is set: no sweep of another process changes the row, and
the row stays claimed or running under the worker, until the worker has written the
outcome, exactly when the signal does not find the row taken back and every sweep
meanwhile comes in time. -/
theorem draining_safe_iff (cfg : Config) (t₀ : Time) (db : Db) {t : History Sys Event} {s : Sys}
    (run : Runs cfg t₀ db t s) (w : WorkerId) (j : JobId) :
    (EachStep (SparesDraining cfg w j) t ∧ Throughout (KeepsRow w j) t s) ↔
      EachStep (DrainsInTime cfg w j) t := by
  constructor
  · rintro ⟨-, keeps⟩
    refine run.eachStep (P := KeepsRow w j) ?_ keeps
    intro t s e s' before earlier _ after taken
    exact inTime_of_keeps before taken earlier.here after
  · intro inTime
    induction run with
    | nil => exact ⟨trivial, fun drains => drains.elim⟩
    | snoc before taken ih =>
        obtain ⟨spares, keeps⟩ := ih inTime.2
        have kept := kept_of_draining (before.snoc taken) inTime
        refine ⟨⟨?_, spares⟩, fun drains => ?_, keeps⟩
        · rintro drains p - rfl
          have safe := kept.2.here drains
          exact (spares_iff_inTime before rfl drains.executes safe).2 (inTime.1.2 drains)
        · exact (owns_iff_kept (before.snoc taken) drains.executes).2 (kept.1 drains)

/-- A signal that finds the row its worker's finds it not taken back. -/
theorem drainsInTime_of_owned {cfg : Config} {t₀ : Time} {db : Db} {t : History Sys Event}
    {s : Sys} {w : WorkerId} {j : JobId} (run : Runs cfg t₀ db t s)
    (inTime : EachStep (InTime w j) t)
    (owned : EachStep (fun _ s e => e.shutsDown w.proc = true →
      (s.db.jobs.row j).any fun r => r.workerId = some w) t) :
    EachStep (DrainsInTime cfg w j) t := by
  induction run with
  | nil => trivial
  | snoc before taken ih =>
      refine ⟨⟨?_, fun _ => inTime.1⟩, ih inTime.2 owned.2⟩
      rintro signal ⟨job, at_, rfl⟩ back
      obtain ⟨r, row, own⟩ := Option.any_eq_true .. |>.1 (owned.1 (Event.shutsDown_iff.2 signal))
      have lost := ((tracked_of_run before w job at_).2 r row).lost back
      simp [lost.1] at own

/-- A sweep 20 seconds after the signal leaves the job to the worker that drains it. -/
theorem draining_safe_short :
    ∃ t s, Runs demo 0 .empty t s ∧ (∃ x ∈ t, x.2.sweeps = true ∧ x.1.shutdown 0 = true) ∧
      Drains ⟨0, 0⟩ 1 t s ∧ Owns s ⟨0, 0⟩ 1 := by
  obtain ⟨t, s, run, after⟩ := demo_run
    ([.createJob demoJob, .start 0, .start 1, .worker ⟨0, 0⟩ (.connect true)] ++
      demoClaim ⟨0, 0⟩ [1] (some 1) ++
      [.worker ⟨0, 0⟩ (.markRunning false), .worker ⟨0, 0⟩ .startHandler, .shutdown 0,
        .tick 20] ++ demoSweep 1)
    (fun out => (out.1.any fun x => x.2.sweeps && x.1.shutdown 0) ∧ Drains ⟨0, 0⟩ 1 out.1 out.2 ∧
      EachStep (InTime ⟨0, 0⟩ 1) out.1 ∧
      EachStep (fun _ s e => e.shutsDown 0 = true →
        (s.db.jobs.row 1).any fun r => r.workerId = some ⟨0, 0⟩) out.1)
    (by decide +kernel)
  simp only [decide_eq_true_eq, List.any_eq_true, Bool.and_eq_true] at after
  obtain ⟨sweeps, drains, inTime, owned⟩ := after
  have safe := (draining_safe_iff demo 0 .empty run ⟨0, 0⟩ 1).2
    (drainsInTime_of_owned run inTime owned)
  exact ⟨t, s, run, sweeps, drains, safe.2.here drains⟩

/-- The worker of process 0 never missed a heartbeat.  It drains job 1 when the signal
stops its heartbeat loop; 31 seconds later process 1 sweeps, and takes the row. -/
theorem draining_swept :
    ∃ t s, Runs demo 0 .empty t s ∧
      Throughout (fun t s => s.shutdown 0 = false → PunctualAt ⟨0, 0⟩ t s) t s ∧
      s.heartbeat ⟨0, 0⟩ = .exited ∧ Drains ⟨0, 0⟩ 1 t s ∧
      (step demo s (.reaper 1 .update)).isSome ∧
      ¬ SparesDraining demo ⟨0, 0⟩ 1 t s (.reaper 1 .update) := by
  obtain ⟨t, s, run, after⟩ := demo_run
    ([.createJob demoJob, .start 0, .start 1, .worker ⟨0, 0⟩ (.connect true),
        .heartbeat ⟨0, 0⟩ .check, .heartbeat ⟨0, 0⟩ .update] ++
      demoClaim ⟨0, 0⟩ [1] (some 1) ++
      [.worker ⟨0, 0⟩ (.markRunning false), .worker ⟨0, 0⟩ .startHandler, .tick 10] ++
      demoBeat ⟨0, 0⟩ ++ [.shutdown 0, .heartbeat ⟨0, 0⟩ .wake, .tick 31, .reaper 1 .check])
    (fun out =>
      Throughout (fun t s => s.shutdown 0 = false → PunctualAt ⟨0, 0⟩ t s) out.1 out.2 ∧
        out.2.heartbeat ⟨0, 0⟩ = .exited ∧ Drains ⟨0, 0⟩ 1 out.1 out.2 ∧
        out.2.reaper 1 = .updating ∧
        (out.2.db.jobs.row 1).any fun r => r.isStale out.2.now)
    (by decide +kernel)
  simp only [decide_eq_true_eq, Option.any_eq_true] at after
  obtain ⟨punctual, silent, drains, updating, stale⟩ := after
  refine ⟨t, s, run, punctual, silent, drains, ?_, fun spares => ?_⟩
  · simp [step, control, loopNext, updating]
  · exact spares drains 1 (by decide) rfl ⟨rfl, stale⟩

end TaskQueue
