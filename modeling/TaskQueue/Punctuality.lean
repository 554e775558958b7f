/-
# TaskQueue.Punctuality -- sweeps and punctual workers

In a punctual run every worker reaches its `'running'` UPDATE within the threshold of its
claim and, while it runs the job, gives a sign of life within the threshold of the last
one.  Then `heartbeat_at` of a running row is the last sign of its worker
(`heartbeatAt_eq_last`) and no sweep matches it.  A claimed row is another matter: its
`heartbeat_at` is as the claim found it (`heartbeatAt_of_claimed`), what an earlier attempt
left there, for neither the retry nor the claim writes the column.

* `lastStamp` reads the column off the history, and `sparesClaimed_iff` says with it when a
  sweep spares the claimed window.
-/
import Mathlib.Tactic.Linarith
import TaskQueue.Ownership

namespace TaskQueue

set_option autoImplicit false

open Transition

/-- `w` commits a claim. -/
def claimsBy (w : WorkerId) (_ : Sys) : Event → Bool
  | .worker w' (.claim plan) => w' = w && plan.returned.isSome
  | _ => false

/-- `w` gives a sign of life: its `'running'` UPDATE or a heartbeat. -/
def signals (w : WorkerId) (_ : Sys) : Event → Bool
  | .worker w' (.markRunning false) => w' = w
  | .heartbeat w' .update => w' = w
  | _ => false

/-- `w` is within the threshold: since its claim while it has not marked the job running,
since its last sign of life while it runs the job. -/
def PunctualAt (w : WorkerId) (t : History Sys Event) (s : Sys) : Prop :=
  ((s.stages w).status? = some .claimed →
      ∀ τ ∈ lastAt Sys.now (claimsBy w) t, s.now < τ + staleThreshold) ∧
    ((s.stages w).status? = some .running →
      ∀ τ ∈ lastAt Sys.now (signals w) t, s.now < τ + staleThreshold)

instance (w : WorkerId) (t : History Sys Event) (s : Sys) : Decidable (PunctualAt w t s) :=
  inferInstanceAs (Decidable (_ ∧ _))

def Punctual (t : History Sys Event) (s : Sys) : Prop := ∀ w, PunctualAt w t s

/-- The step, if it is a sweep, resets no row of a job in execution. -/
def SparesExecuted (cfg : Config) (_ : History Sys Event) (s : Sys) (e : Event) : Prop :=
  ∀ w j, Sweeps cfg s e j → ¬ Executes s w j

/-- The step, if it is a sweep, finds no job between claim and `'running'` UPDATE with a
heartbeat that an earlier attempt left more than the threshold ago. -/
def SparesClaimed (cfg : Config) (_ : History Sys Event) (s : Sys) (e : Event) : Prop :=
  committed cfg s e = some .reap → ∀ w job r h, s.pc w = .marking job →
    s.db.jobs.row job.id = some r → r.status = .claimed → r.heartbeatAt = some h →
    s.now - staleThreshold ≤ h

section

variable {cfg : Config} {t₀ : Time} {db : Db} {t : History Sys Event} {s s' : Sys} {e : Event}
  {w : WorkerId} {j : JobId} {r r' : Job} {job job' : Record}

/-- While sweeps spare the jobs in execution, no row is taken back. -/
theorem kept_of_spared (run : Runs cfg t₀ db t s) :
    EachStep (SparesExecuted cfg) t → Executes s w j → ¬ TakenBack cfg w j t := by
  refine run.invariant (P := fun t s =>
    EachStep (SparesExecuted cfg) t → Executes s w j → ¬ TakenBack cfg w j t)
    (fun _ _ => not_false) ?_
  intro t s e s' run ih taken spared executes
  rintro ⟨keeps, back⟩
  rcases executes_step run taken executes with before | claims
  · rcases back with sweeps | earlier
    · exact spared.1 w j sweeps before
    · exact ih spared.2 before earlier
  · exact keeps claims

theorem signals_commits (taken : step cfg s e = some s') (signal : signals w s e = true) :
    (∃ job, s.stages w = .claimed job ∧ committed cfg s e = some (.markRunning job.id)) ∨
      committed cfg s e = some (.heartbeat w) := by
  unfold signals at signal
  split at signal
  · simp only [decide_eq_true_eq] at signal
    subst signal
    rename_i w
    obtain ⟨job, at_⟩ := marking_of_enabled (Option.isSome_of_eq_some taken)
    refine .inl ⟨job, by rw [Sys.stages, at_]; rfl, ?_⟩
    simp [committed, Sys.runWorker, runWorker, executeJob, at_]
  · simp only [decide_eq_true_eq] at signal
    subst signal
    exact .inr rfl
  · cases signal

/-- A worker that runs a job ran it before, or has just marked it running. -/
theorem running_before (run : Runs cfg t₀ db t s) (taken : step cfg s e = some s')
    (at' : s'.stages w = .running job') :
    (∃ job, s.stages w = .running job ∧ job.id = job'.id) ∨
      (s.stages w = .claimed job' ∧ signals w s e = true ∧
        committed cfg s e = some (.markRunning job'.id)) := by
  by_cases stage : s'.stages w = s.stages w
  · exact .inl ⟨job', stage.symm.trans at', rfl⟩
  -- the worker's own step
  cases change_of_run run taken with
  | claims _ _ _ _ _ stages => cases (mine_of_update stages stage).2.symm.trans at'
  | marks commits writes before stages =>
      obtain ⟨rfl, after⟩ := mine_of_update stages stage
      cases after.symm.trans at'
      refine .inr ⟨before, ?_, commits⟩
      cases writes with
      | running _ => simp [signals]
      | done at_ =>
          rw [Sys.stages, at_] at before
          cases before
      | failed at_ =>
          rw [Sys.stages, at_] at before
          cases before
  | carries _ before stages =>
      obtain ⟨rfl, after⟩ := mine_of_update stages stage
      cases after.symm.trans at'
      exact .inl ⟨_, before, rfl⟩
  | succeeds _ _ _ stages => cases (mine_of_update stages stage).2.symm.trans at'
  | fails _ _ _ stages => cases (mine_of_update stages stage).2.symm.trans at'
  | quiet _ stages => cases ((stages w).resolve_left stage).symm.trans at'
  | heartbeats _ stages => exact absurd (congrFun stages w) stage
  | reaps _ stages => exact absurd (congrFun stages w) stage
  | inserts _ stages => exact absurd (congrFun stages w) stage
  | deletes _ _ _ stages => exact absurd (congrFun stages w) stage

/-- While the row of a running job is its worker's and stays running, `heartbeat_at` changes
exactly with the signs of life of that worker. -/
theorem heartbeatAt_step (run : Runs cfg t₀ db t s) (taken : step cfg s e = some s')
    (at_ : s.stages w = .running job) (row : s.db.jobs.row job.id = some r)
    (own : ¬ TakenBack cfg w job.id t) (row' : s'.db.jobs.row job.id = some r')
    (still : r'.status = .running) :
    r'.heartbeatAt = if signals w s e then some s.now else r.heartbeatAt := by
  have holds := (tracked_of_run run w job (congrArg Stage.job? at_)).2 r row
  have owner := (holds.kept own).1
  have running : r.status = .running := holds.status_eq own (congrArg Stage.status? at_)
  -- a sign of life of a worker that runs its job is a heartbeat, which finds the row
  have signal (signal : signals w s e = true) : r'.heartbeatAt = some s.now := by
    rcases signals_commits taken signal with ⟨job₀, claimed, -⟩ | commits
    · cases at_.symm.trans claimed
    · have beats : r.beatsFor w = true := Job.beatsFor_iff.2 ⟨owner, running⟩
      rw [step_db taken, row_commit _ row, commits] at row'
      simp only [rowAfter, Statement.onRow, beats, if_true, Option.some.injEq] at row'
      rw [← row']
      rfl
  split
  · rename_i hit
    exact signal hit
  · rename_i silent
    have change := row_step run taken row
    rw [row'] at change
    cases change with
    | keeps _ _ => rfl
    | beats commits own' _ =>
        cases owner.symm.trans own'
        obtain ⟨rfl, -⟩ := heartbeat_updating taken commits
        exact absurd (by simp [signals]) silent
    | marks _ _ _ holds₀ =>
        -- its author would be the owner, which is past this UPDATE
        cases holds₀.owner owner
        cases (holds₀.status_eq own rfl).symm.trans running
    | claims _ _ => cases still
    | succeeds _ _ _ _ => cases still
    | dies _ _ _ _ _ => cases still
    | retries _ _ _ _ _ => cases still
    | reclaims _ _ => cases still

/-- **A running row that was not taken back shows its worker's last sign of life.** -/
theorem heartbeatAt_eq_last (run : Runs cfg t₀ db t s) :
    ∀ w job r, s.stages w = .running job → s.db.jobs.row job.id = some r →
      ¬ TakenBack cfg w job.id t → r.heartbeatAt = lastAt Sys.now (signals w) t := by
  refine run.invariant (P := fun t s => ∀ w job r, s.stages w = .running job →
    s.db.jobs.row job.id = some r → ¬ TakenBack cfg w job.id t →
    r.heartbeatAt = lastAt Sys.now (signals w) t) ?_ ?_
  · intro w job r at_
    cases at_
  intro t s e s' run ih taken w job' r' at' row' own'
  have holds' := (tracked_of_run (run.snoc taken) w job' (congrArg Stage.job? at')).2 r' row'
  have still : r'.status = .running := holds'.status_eq own' (congrArg Stage.status? at')
  have keeps : ¬ Claims cfg s e w job'.id := by
    intro claims
    obtain ⟨_, _, _, _, -, -, -, -, -, -, pcs⟩ := claims_step taken claims
    rw [Sys.stages, pcs, Function.update_self] at at'
    cases at'
  have own : ¬ TakenBack cfg w job'.id t := fun back => own' ⟨keeps, .inr back⟩
  rcases running_before run taken at' with ⟨job, at_, same⟩ | ⟨claimed, signal, commits⟩
  · rw [← same] at row' own
    have old := (tracked_of_run run w job (congrArg Stage.job? at_)).1
    obtain ⟨r, row, -⟩ := row_before _ old (by rw [← step_db taken]; exact row')
    rw [heartbeatAt_step run taken at_ row own row' still, lastAt, ih w job r at_ row own]
  · have old := (tracked_of_run run w job' (congrArg Stage.job? claimed)).1
    rw [step_db taken] at row'
    obtain ⟨r, -, marked⟩ := row_before _ old row'
    rw [commits] at marked
    simp only [rowAfter, Statement.onRow, if_true, Option.some.injEq] at marked
    rw [lastAt_cons_of_pos t signal, ← marked]
    rfl

/-- A punctual worker's running row is not stale. -/
theorem fresh_of_punctual (run : Runs cfg t₀ db t s) (punctual : Punctual t s)
    (at_ : s.stages w = .running job) (row : s.db.jobs.row job.id = some r)
    (own : ¬ TakenBack cfg w job.id t) : ¬ r.isStale s.now = true := by
  intro stale
  obtain ⟨-, h, last, old⟩ := Job.isStale_iff.1 stale
  rw [heartbeatAt_eq_last run w job r at_ row own] at last
  have recent := (punctual w).2 (by rw [at_]; rfl) h last
  linarith

theorem spares_step (run : Runs cfg t₀ db t s) (punctual : Punctual t s)
    (spared : EachStep (SparesExecuted cfg) t) (safe : SparesClaimed cfg t s e) :
    SparesExecuted cfg t s e := by
  rintro w j ⟨reap, r, row, stale⟩ executes
  have own := kept_of_spared run spared executes
  obtain ⟨job, at_, rfl⟩ := executes
  have holds := (tracked_of_run run w job at_).2 r row
  cases stage : s.stages w with
  | idle =>
      rw [stage] at at_
      cases at_
  | claimed job₀ =>
      rw [stage] at at_ holds
      cases at_
      obtain ⟨-, h, set, old⟩ := Job.isStale_iff.1 stale
      have recent := safe reap w job r h (Pc.marking_of_claimed stage) row
        (holds.status_eq own rfl) set
      linarith
  | running job₀ =>
      rw [stage] at at_
      cases at_
      exact fresh_of_punctual run punctual stage row own stale

end

/-! ## `heartbeat_at` by the history of the row -/

/-- What `statement` writes into the `heartbeat_at` of the row `r` of job `j`, if it does. -/
def Statement.stamp (now : Time) (j : JobId) (r : Job) : Statement → Option (Option Time)
  | .markRunning id => if j = id then some (some now) else none
  | .storeDone _ _ id => if j = id then some none else none
  | .heartbeat worker => if r.beatsFor worker then some (some now) else none
  | .reap => if r.isStale now then some none else none
  | _ => none

/-- The `heartbeat_at` that the latest statement to write it left in the row of `j`. -/
def lastStamp (cfg : Config) (j : JobId) : History Sys Event → Option Time
  | [] => none
  | (s, e) :: t =>
      ((s.db.jobs.row j).bind fun r => (committed cfg s e).bind (Statement.stamp s.now j r)).getD
        (lastStamp cfg j t)

section

variable {cfg : Config} {t₀ : Time} {db : Db} {t : History Sys Event} {s s' : Sys} {e : Event}
  {w : WorkerId} {j : JobId} {r r' : Job} {job : Record}

theorem heartbeatAt_onRow {now : Time} {st : Statement} (after : st.onRow now j r = some r') :
    r'.heartbeatAt = (st.stamp now j r).getD r.heartbeatAt := by
  cases st with
  | insertJob _ =>
      cases after
      rfl
  | deleteJob id =>
      simp only [Statement.onRow] at after
      split at after <;> cases after
      rfl
  | _ =>
      simp only [Statement.onRow, Option.some.injEq] at after
      subst after
      simp only [Statement.stamp]
      split <;> rfl

/-- **`heartbeat_at` is the latest stamp.** -/
theorem heartbeatAt_eq_lastStamp (run : Runs cfg t₀ .empty t s) :
    (∀ j r, s.db.jobs.row j = some r → r.heartbeatAt = lastStamp cfg j t) ∧
      ∀ j, s.db.jobs.next ≤ j → lastStamp cfg j t = none := by
  refine run.invariant (P := fun t s =>
    (∀ j r, s.db.jobs.row j = some r → r.heartbeatAt = lastStamp cfg j t) ∧
      ∀ j, s.db.jobs.next ≤ j → lastStamp cfg j t = none) ?_ ?_
  · refine ⟨fun j r row => ?_, fun _ _ => rfl⟩
    cases row
  rintro t s e s' run ⟨stamped, unborn⟩ taken
  constructor
  · intro j r' row'
    rw [step_db taken] at row'
    cases row : s.db.jobs.row j with
    | none =>
        -- inserted by this step: the column is NULL, and no earlier row had this key
        obtain ⟨body, -, rfl, rfl⟩ := row_new row row'
        simp only [lastStamp, row, Option.bind_none, Option.getD_none]
        exact (unborn _ le_rfl).symm
    | some r =>
        rw [row_commit _ row] at row'
        simp only [lastStamp, row, Option.bind_some]
        rw [← stamped j r row]
        cases commits : committed cfg s e with
        | none =>
            rw [commits] at row'
            cases row'
            rfl
        | some st =>
            rw [commits] at row'
            exact heartbeatAt_onRow row'
  · intro j new
    have before : s.db.jobs.next ≤ j := by
      rw [step_db taken] at new
      exact (next_commit _ _ _).trans new
    have none_ : s.db.jobs.row j = none := by
      cases row : s.db.jobs.row j with
      | none => rfl
      | some _ => exact absurd (SerialTable.lt_next row) (Nat.not_lt.2 before)
    simpa only [lastStamp, none_, Option.bind_none, Option.getD_none] using unborn j before

/-- A sweep spares the claimed window exactly when the latest stamp of each row in it, which
an attempt before the claim left, is no older than the threshold. -/
theorem sparesClaimed_iff (run : Runs cfg t₀ .empty t s) :
    SparesClaimed cfg t s e ↔
      (committed cfg s e = some .reap → ∀ w job r, s.pc w = .marking job →
        s.db.jobs.row job.id = some r → r.status = .claimed →
        ∀ h, lastStamp cfg job.id t = some h → s.now - staleThreshold ≤ h) := by
  have stamped := (heartbeatAt_eq_lastStamp run).1
  constructor
  · intro spares reap w job r at_ row claimed h last
    exact spares reap w job r h at_ row claimed ((stamped _ r row).trans last)
  · intro spares reap w job r h at_ row claimed set
    exact spares reap w job r at_ row claimed h ((stamped _ r row).symm.trans set)

/-- Between the claim of `w` and its `'running'` UPDATE the column is as the claim found it. -/
theorem heartbeatAt_of_claimed (run : Runs cfg t₀ db t s) :
    ∀ w job r, s.stages w = .claimed job → s.db.jobs.row job.id = some r →
      ¬ TakenBack cfg w job.id t →
      ∃ u v s₀ e₀ r₀, t = v ++ (s₀, e₀) :: u ∧ Claims cfg s₀ e₀ w job.id ∧
        s₀.db.jobs.row job.id = some r₀ ∧ r.heartbeatAt = r₀.heartbeatAt := by
  refine run.invariant (P := fun t s => ∀ w job r, s.stages w = .claimed job →
    s.db.jobs.row job.id = some r → ¬ TakenBack cfg w job.id t →
    ∃ u v s₀ e₀ r₀, t = v ++ (s₀, e₀) :: u ∧ Claims cfg s₀ e₀ w job.id ∧
      s₀.db.jobs.row job.id = some r₀ ∧ r.heartbeatAt = r₀.heartbeatAt) ?_ ?_
  · intro w job r at_
    cases at_
  intro t s e s' run ih taken w job' r' at' row' own'
  have executes' : Executes s' w job'.id := ⟨job', by rw [at']; rfl, rfl⟩
  have holds' := (tracked_of_run (run.snoc taken) w job' (congrArg Stage.job? at')).2 r' row'
  have claimed' : r'.status = .claimed := holds'.status_eq own' (congrArg Stage.status? at')
  by_cases claims : Claims cfg s e w job'.id
  · obtain ⟨startedAt, commits⟩ := claims
    obtain ⟨_, _, _, r, -, -, -, -, row, -⟩ := claims_step taken ⟨startedAt, commits⟩
    refine ⟨t, [], s, e, r, rfl, ⟨startedAt, commits⟩, row, ?_⟩
    rw [step_db taken, row_commit _ row, commits] at row'
    simp only [rowAfter, Statement.onRow, if_true, Option.some.injEq] at row'
    rw [← row']
    rfl
  · obtain ⟨job, at_, same⟩ := (executes_step run taken executes').resolve_right claims
    have own : ¬ TakenBack cfg w job'.id t := fun back => own' ⟨claims, .inr back⟩
    rw [← same] at row' own claims ⊢
    have tracked := tracked_of_run run w job at_
    rw [step_db taken] at row'
    obtain ⟨r, row, after⟩ := row_before _ tracked.1 row'
    have kept := (tracked.2 r row).kept own
    have change := row_step run taken row
    rw [step_db taken, row'] at change
    cases change with
    | keeps _ _ =>
        cases stage : s.stages w with
        | claimed job₀ =>
            rw [stage] at at_
            cases at_
            obtain ⟨u, v, s₀, e₀, r₀, rfl, found⟩ := ih w job r' stage row own
            exact ⟨u, (s, e) :: v, s₀, e₀, r₀, rfl, found⟩
        | _ => simp [stage, Stage.status?, claimed'] at kept
    | claims _ pending =>
        cases stage : s.stages w with
        | _ => simp [stage, Stage.status?, pending] at kept
    | marks _ _ _ _ => cases claimed'
    | succeeds _ _ _ _ => cases claimed'
    | dies _ _ _ _ _ => cases claimed'
    | retries _ _ _ _ _ => cases claimed'
    | beats _ _ running => cases running.symm.trans claimed'
    | reclaims _ _ => cases claimed'

end

/-- **When sweeps spare punctual workers.**  In a punctual run no sweep resets the row of a
job between its claim and its outcome write, exactly when no sweep finds a job between its
claim and its `'running'` UPDATE whose `heartbeat_at`, left by an earlier attempt, is
older than the threshold. -/
theorem reaper_spares_punctual_iff (cfg : Config) (t₀ : Time) (db : Db) {t : History Sys Event}
    {s : Sys} (run : Runs cfg t₀ db t s) (punctual : Throughout Punctual t s) :
    EachStep (SparesExecuted cfg) t ↔ EachStep (SparesClaimed cfg) t := by
  constructor
  · refine EachStep.mono fun u a e spares reap w job r h at_ row claimed set => ?_
    by_contra old
    refine spares w job.id ⟨reap, r, row, ?_⟩ ⟨job, by rw [Sys.stages, at_]; rfl, rfl⟩
    exact Job.isStale_iff.2 ⟨.inl claimed, h, set, not_le.1 old⟩
  · intro safe
    induction run with
    | nil => trivial
    | snoc before taken ih =>
        have spared := ih punctual.2 safe.2
        exact ⟨spares_step before punctual.2.here spared safe.1, spared⟩

/-! ## Runs of one worker -/

section

variable {cfg : Config} {t₀ : Time} {db : Db} {t : History Sys Event} {s : Sys} {w₀ : WorkerId}

theorem punctual_of_only (run : Runs cfg t₀ db t s)
    (only : ∀ a w act, (a, .worker w act) ∈ t → w = w₀)
    (punctual : Throughout (PunctualAt w₀) t s) : Throughout Punctual t s := by
  have every {t : History Sys Event} {s : Sys} (run : Runs cfg t₀ db t s)
      (only : ∀ a w act, (a, .worker w act) ∈ t → w = w₀) (mine : PunctualAt w₀ t s) :
      Punctual t s := by
    intro w
    by_cases same : w = w₀
    · exact same ▸ mine
    · have idle := idle_of_only run only w same
      refine ⟨fun claimed => ?_, fun running => ?_⟩
      · rw [idle] at claimed
        cases claimed
      · rw [idle] at running
        cases running
  induction run with
  | nil => exact every .nil only punctual
  | snoc before taken ih =>
      refine ⟨every (before.snoc taken) only punctual.1, ih ?_ punctual.2⟩
      exact fun a w act member => only a w act (List.mem_cons_of_mem _ member)

theorem sparesClaimed_of_only (run : Runs cfg t₀ db t s)
    (only : ∀ a w act, (a, .worker w act) ∈ t → w = w₀)
    (clear : ∀ a e, (a, e) ∈ t → e.sweeps = true → (a.stages w₀).status? ≠ some .claimed) :
    EachStep (SparesClaimed cfg) t := by
  induction run with
  | nil => trivial
  | @snoc t s s' e before taken ih =>
      have only' : ∀ a w act, (a, .worker w act) ∈ t → w = w₀ := fun a w act member =>
        only a w act (List.mem_cons_of_mem _ member)
      refine ⟨fun reap w job r h at_ _ _ _ => ?_, ih only' fun a e member =>
        clear a e (List.mem_cons_of_mem _ member)⟩
      obtain ⟨p, rfl⟩ := reap_event taken reap
      by_cases same : w = w₀
      · subst same
        refine absurd ?_ (clear s _ List.mem_cons_self rfl)
        rw [Sys.stages, at_]
        rfl
      · have idle := idle_of_only before only' w same
        rw [Sys.stages, at_] at idle
        cases idle

end

/-- The heartbeat loop of `w` wakes up and writes. -/
def demoBeat (w : WorkerId) : List Event :=
  [.heartbeat w .wake, .heartbeat w .check, .heartbeat w .update]

/-- A job that runs for 40 seconds under a punctual worker is not swept. -/
theorem reaper_spares_punctual_running :
    ∃ t s, Runs demo 0 .empty t s ∧ EachStep (SparesExecuted demo) t ∧
      (∃ x ∈ t, x.2.sweeps = true) ∧ ∃ r, s.db.jobs.row 1 = some r ∧ r.status = .running := by
  obtain ⟨t, s, run, after⟩ := demo_run
    ([.createJob demoJob, .start 0, .worker ⟨0, 0⟩ (.connect true), .heartbeat ⟨0, 0⟩ .check,
        .heartbeat ⟨0, 0⟩ .update] ++ demoClaim ⟨0, 0⟩ [1] (some 1) ++
      [.worker ⟨0, 0⟩ (.markRunning false), .tick 20] ++ demoBeat ⟨0, 0⟩ ++ [.tick 20] ++
      demoSweep 0)
    (fun out =>
      onlyWorker ⟨0, 0⟩ out.1 ∧ Throughout (PunctualAt ⟨0, 0⟩) out.1 out.2 ∧
        (out.1.all fun x => x.2.sweeps → (x.1.stages ⟨0, 0⟩).status? ≠ some .claimed) ∧
        (out.1.any fun x => x.2.sweeps) ∧
        (out.2.db.jobs.row 1).any fun r => r.status = .running)
    (by decide +kernel)
  simp only [decide_eq_true_eq, Option.any_eq_true, List.any_eq_true, List.all_eq_true] at after
  obtain ⟨only, punctual, clear, sweeps, running⟩ := after
  have only := only_of_onlyWorker only
  have safe : EachStep (SparesClaimed demo) t :=
    sparesClaimed_of_only run only fun a e member => clear (a, e) member
  have spared := (reaper_spares_punctual_iff demo 0 .empty run
    (punctual_of_only run only punctual)).2 safe
  exact ⟨t, s, run, spared, sweeps, running⟩

/-- Job 1 failed at time 0 and is claimed again at time 40 by a worker that never missed a
heartbeat: the row still carries the `heartbeat_at` of the first attempt, and a sweep
takes it from the worker that has just claimed it. -/
theorem reaper_takes_retried_job :
    ∃ t s, Runs demo 0 .empty t s ∧ Throughout Punctual t s ∧
      Throughout (fun t s => ∀ τ ∈ lastAt Sys.now (signals ⟨0, 0⟩) t, s.now < τ + staleThreshold)
        t s ∧
      s.shutdown 0 = false ∧ Executes s ⟨0, 0⟩ 1 ∧
      Sweeps demo s (.reaper 0 .update) 1 ∧ (step demo s (.reaper 0 .update)).isSome := by
  obtain ⟨t, s, run, after⟩ := demo_run
    ([.createJob { demoJob with type := "resize" }, .start 0, .worker ⟨0, 0⟩ (.connect true)] ++
      demoClaim ⟨0, 0⟩ [1] (some 1) ++ demoFail ⟨0, 0⟩ ++
      [.heartbeat ⟨0, 0⟩ .check, .heartbeat ⟨0, 0⟩ .update, .tick 20] ++ demoBeat ⟨0, 0⟩ ++
      [.tick 20] ++ demoBeat ⟨0, 0⟩ ++ demoClaim ⟨0, 0⟩ [1] (some 1) ++ [.reaper 0 .check])
    (fun out =>
      onlyWorker ⟨0, 0⟩ out.1 ∧ Throughout (PunctualAt ⟨0, 0⟩) out.1 out.2 ∧
        Throughout
          (fun t s => ∀ τ ∈ lastAt Sys.now (signals ⟨0, 0⟩) t, s.now < τ + staleThreshold)
          out.1 out.2 ∧
        out.2.shutdown 0 = false ∧ out.2.reaper 0 = .updating ∧
        (out.2.stages ⟨0, 0⟩).job?.any (fun job => job.id = 1) ∧
        (out.2.db.jobs.row 1).any fun r => r.isStale out.2.now)
    (by decide +kernel)
  simp only [decide_eq_true_eq, Option.any_eq_true] at after
  obtain ⟨only, punctual, beats, going, updating, executes, stale⟩ := after
  refine ⟨t, s, run, punctual_of_only run (only_of_onlyWorker only) punctual, beats, going,
    executes, ⟨rfl, stale⟩, ?_⟩
  simp [step, control, loopNext, updating]

end TaskQueue
