/-
# TaskQueue.Executions -- how often a handler is started

`attempt` counts outcome writes, not executions: a worker that dies in the handler writes
none, and the sweep that gives its job back leaves the column as it is.  So a job whose
handler kills its worker is executed again after every sweep.  What does hold is a budget
for each: every execution of a job ends in an outcome, of which there are at most
`max 1 max_retries`, or in a sweep that takes a running row back.

* `accounted_of_run` is the account of the `'running'` UPDATEs of a job against its outcomes
  and those sweeps, as long as the row is there; `marks_le` bounds them also afterwards.
* `starts_le_marks` bounds the handler starts by the `'running'` UPDATEs.
-/
import TaskQueue.Accounting
import TaskQueue.Cancellation

namespace TaskQueue

set_option autoImplicit false

open Transition

/-- The job whose handler a worker is about to look up. -/
def Pc.starting? : Pc → Option Record
  | .starting job => some job
  | _ => none

/-- The step starts the handler of job `j`. -/
def starts (cfg : Config) (j : JobId) (s : Sys) : Event → Bool
  | .worker w .startHandler =>
      (s.pc w).starting?.any fun job => job.id = j && job.type ∈ cfg.registry
  | _ => false

/-- The step commits the `'running'` UPDATE of job `j`. -/
def marks (cfg : Config) (j : JobId) (s : Sys) (e : Event) : Bool :=
  match committed cfg s e with
  | some (.markRunning id) => id = j
  | _ => false

/-- The step is a sweep that takes the row of job `j` back from `'running'`. -/
def sweepsRunning (cfg : Config) (j : JobId) (s : Sys) (e : Event) : Bool :=
  match committed cfg s e with
  | some .reap => (s.db.jobs.row j).any fun r => r.status = .running && r.isStale s.now
  | _ => false

/-- `max_retries` of the INSERT of job `j`. -/
def budget (cfg : Config) (j : JobId) (t : History Sys Event) : Option ℕ :=
  (enqueued cfg j t).map JobCreate.maxRetries

section

variable {cfg : Config} {t₀ : Time} {db : Db} {t : History Sys Event} {s s' : Sys} {e : Event}
  {w : WorkerId} {j : JobId} {r r' : Job} {job : Record}

theorem Pc.starting_of_some {pc : Pc} (some_ : pc.starting? = some job) : pc = .starting job := by
  cases pc <;> simp_all [Pc.starting?]

theorem starts_iff : starts cfg j s e = true ↔ ∃ w, StartsHandler cfg s e w j := by
  constructor
  · intro hit
    unfold starts at hit
    split at hit
    · rename_i w
      simp only [Option.any_eq_true, Bool.and_eq_true, decide_eq_true_eq] at hit
      obtain ⟨job, at_, same, known⟩ := hit
      exact ⟨w, job, Pc.starting_of_some at_, same, rfl, if_pos known⟩
    · cases hit
  · rintro ⟨w, job, at_, same, rfl, handler⟩
    have known : job.type ∈ cfg.registry := by
      by_contra unknown
      simp [getHandler, unknown] at handler
    simp [starts, at_, Pc.starting?, same, known]

theorem marks_iff : marks cfg j s e = true ↔ committed cfg s e = some (.markRunning j) := by
  unfold marks
  split
  · rename_i commits
    simp [commits]
  · rename_i other
    refine iff_of_false (by simp) fun commits => other j commits

theorem sweepsRunning_iff : sweepsRunning cfg j s e = true ↔
    committed cfg s e = some .reap ∧
      ∃ r, s.db.jobs.row j = some r ∧ r.status = .running ∧ r.isStale s.now = true := by
  unfold sweepsRunning
  split
  · rename_i commits
    simp [commits, Option.any_eq_true]
  · rename_i other
    exact iff_of_false (by simp) fun sweeps => other sweeps.1

/-! ## The account of the running UPDATEs -/

/-- The `'running'` UPDATE of a job comes from the worker that claimed it. -/
theorem marks_cases (run : Runs cfg t₀ db t s) (taken : step cfg s e = some s')
    (commits : committed cfg s e = some (.markRunning j)) :
    ∃ w job, job.id = j ∧ s.stages w = .claimed job ∧
      s'.stages = Function.update s.stages w (.running job) := by
  cases change_of_run run taken with
  | @marks w job commits' _ at_ stages =>
      cases commits.symm.trans commits'
      exact ⟨w, job, rfl, at_, stages⟩
  | fails commits' =>
      have same := Option.some.inj (commits'.symm.trans commits)
      exact absurd same (handleFailure_ne rfl)
  | claims commits' => cases commits.symm.trans commits'
  | carries commits' => cases commits.symm.trans commits'
  | succeeds commits' => cases commits.symm.trans commits'
  | heartbeats commits' => cases commits.symm.trans commits'
  | reaps commits' => cases commits.symm.trans commits'
  | inserts commits' => cases commits.symm.trans commits'
  | deletes commits' => cases commits.symm.trans commits'
  | quiet commits' => cases commits.symm.trans commits'

/-- A claimed job's row is claimed, or a sweep has made it pending. -/
theorem status_of_claimed (run : Runs cfg t₀ db t s) (at_ : s.stages w = .claimed job)
    (row : s.db.jobs.row job.id = some r) : r.status = .claimed ∨ r.status = .pending := by
  have holds := (tracked_of_run run w job (congrArg Stage.job? at_)).2 r row
  by_cases back : TakenBack cfg w job.id t
  · rcases (holds.lost back).2 with pending | ⟨-, running⟩
    · exact .inr pending
    · rw [at_] at running
      cases running
  · exact .inl (holds.status_eq back (congrArg Stage.status? at_))

/-- The account of a row: its budget, and a `'running'` UPDATE for each outcome, for each
sweep that took it back from running, and for the attempt it is in. -/
structure Accounted (cfg : Config) (j : JobId) (t : History Sys Event) (r : Job) : Prop where
  budget : budget cfg j t = some r.maxRetries
  running : tally (marks cfg j) t ≤
    (outcomes cfg j t).length + tally (sweepsRunning cfg j) t + 1
  rests : r.status ≠ .running →
    tally (marks cfg j) t ≤ (outcomes cfg j t).length + tally (sweepsRunning cfg j) t

/-- The account of a row that stays is kept by every step. -/
theorem accounted_step (run : Runs cfg t₀ db t s) (taken : step cfg s e = some s')
    (accounted : Accounted cfg j t r) (row : s.db.jobs.row j = some r)
    (row' : s'.db.jobs.row j = some r') : Accounted cfg j ((s, e) :: t) r' := by
  obtain ⟨granted, running, rests⟩ := accounted
  have granted : TaskQueue.budget cfg j ((s, e) :: t) = some r.maxRetries := by
    rwa [TaskQueue.budget, enqueued_old (SerialTable.lt_next row)]
  have sweeps := tally_le (t := t) (s := s) (e := e) (sweepsRunning cfg j)
  by_cases hit : marks cfg j s e = true
  · -- the row is claimed or pending, and running afterwards
    have commits := marks_iff.1 hit
    obtain ⟨w, job, rfl, at_, -⟩ := marks_cases run taken commits
    have before : r.status ≠ .running := by
      rcases status_of_claimed run at_ row with status | status <;> simp [status]
    have bound := rests before
    rw [step_db taken, row_commit _ row, commits] at row'
    simp only [rowAfter, Statement.onRow, if_true, Option.some.injEq] at row'
    subst row'
    refine ⟨granted, ?_, fun still => absurd rfl still⟩
    rw [tally_hit hit, outcomes_skip (decided_none commits rfl)]
    omega
  · have change := row_step run taken row
    rw [row'] at change
    have same := tally_quiet (t := t) hit
    -- an outcome write pays for the attempt
    have pays {o : RetryBudget.Outcome} (writes : decided cfg s e j = some o)
        (budget : r'.maxRetries = r.maxRetries) : Accounted cfg j ((s, e) :: t) r' := by
      have length := congrArg List.length (outcomes_cons (t := t) row writes)
      rw [List.length_cons] at length
      exact ⟨budget ▸ granted, by omega, fun _ => by omega⟩
    -- a step that writes no outcome and moves no row to or from running
    have carries (undecided : decided cfg s e j = none) (budget : r'.maxRetries = r.maxRetries)
        (status : r.status = .running ∨ r'.status = .running → r'.status = r.status) :
        Accounted cfg j ((s, e) :: t) r' := by
      rw [← outcomes_skip (t := t) undecided] at running rests
      refine ⟨budget ▸ granted, by omega, fun still => ?_⟩
      have bound := rests fun was => still ((status (.inl was)).trans was)
      omega
    cases change with
    | keeps undecided _ => exact carries undecided rfl fun _ => rfl
    | claims commits pending =>
        refine carries (decided_none commits rfl) rfl fun either => ?_
        rcases either with was | is
        · cases pending.symm.trans was
        · cases is
    | marks commits _ _ _ => exact absurd (marks_iff.2 commits) hit
    | succeeds commits _ _ _ => exact pays (decided_some commits rfl) rfl
    | dies commits _ _ _ _ => exact pays (decided_some commits rfl) rfl
    | retries commits _ _ _ _ => exact pays (decided_some commits rfl) rfl
    | beats commits _ _ => exact carries (decided_none commits rfl) rfl fun _ => rfl
    | reclaims commits stale =>
        by_cases was : r.status = .running
        · -- the sweep pays for the attempt
          have hit' : sweepsRunning cfg j s e = true :=
            sweepsRunning_iff.2 ⟨commits, r, row, was, stale⟩
          have more := tally_hit (t := t) hit'
          rw [← outcomes_skip (t := t) (decided_none commits rfl)] at running
          exact ⟨granted, by omega, fun _ => by omega⟩
        · refine carries (decided_none commits rfl) rfl fun either => ?_
          rcases either with is | is
          · exact absurd is was
          · cases is

/-- A key that was not handed out was never marked running. -/
theorem marks_fresh (run : Runs cfg t₀ db t s) :
    ∀ j, s.db.jobs.next ≤ j → tally (marks cfg j) t = 0 := by
  refine run.invariant (P := fun t s => ∀ j, s.db.jobs.next ≤ j → tally (marks cfg j) t = 0)
    (fun _ _ => rfl) ?_
  intro t s e s' run ih taken j beyond
  rw [step_db taken] at beyond
  have old := Nat.le_trans (next_commit _ _ _) beyond
  rw [tally_quiet, ih j old]
  intro hit
  obtain ⟨w, job, rfl, at_, -⟩ := marks_cases run taken (marks_iff.1 hit)
  have handed := (tracked_of_run run w job (congrArg Stage.job? at_)).1
  exact absurd old (Nat.not_le_of_lt handed)

/-- **Every row's account is kept.** -/
theorem accounted_of_run (run : Runs cfg t₀ .empty t s) :
    ∀ j r, s.db.jobs.row j = some r → Accounted cfg j t r := by
  refine run.invariant (P := fun t s => ∀ j r, s.db.jobs.row j = some r → Accounted cfg j t r) ?_ ?_
  · intro j r row
    cases row
  intro t s e s' run ih taken j r' row'
  cases row : s.db.jobs.row j with
  | some r => exact accounted_step run taken (ih j r row) row row'
  | none =>
      rw [step_db taken] at row'
      obtain ⟨body, commits, rfl, rfl⟩ := row_new row row'
      have quiet : ¬ marks cfg s.db.jobs.next s e = true := by simp [marks, commits]
      have blank : tally (marks cfg s.db.jobs.next) ((s, e) :: t) = 0 := by
        rw [tally_quiet quiet, marks_fresh run _ (Nat.le_refl _)]
      refine ⟨?_, by omega, fun _ => by omega⟩
      rw [budget, enqueued_insert commits rfl]
      rfl

/-- A worker is between its claim of `j` and its `'running'` UPDATE. -/
def ToMark (s : Sys) (j : JobId) : Prop := ∃ w job, s.stages w = .claimed job ∧ job.id = j

/-- The `'running'` UPDATEs of a job whose row is there. -/
theorem marks_le_of_row (run : Runs cfg t₀ .empty t s) (row : s.db.jobs.row j = some r) :
    tally (marks cfg j) t ≤ max 1 r.maxRetries + tally (sweepsRunning cfg j) t ∧
      (r.status = .claimed ∨ r.status = .pending →
        tally (marks cfg j) t < max 1 r.maxRetries + tally (sweepsRunning cfg j) t) := by
  obtain ⟨-, running, rests⟩ := accounted_of_run run j r row
  have bounded := (ledger_sound run row).bounded
  have live := ((balanced_of_run run).1 j r row).live_iff
  simp only at bounded
  refine ⟨?_, fun status => ?_⟩
  · by_cases was : r.status = .running
    · have left := (live.1 (.inr (.inr was))).2
      simp only at left
      omega
    · have bound := rests was
      omega
  · have left := (live.1 (status.elim (fun c => .inr (.inl c)) .inl)).2
    have bound := rests (by rcases status with status | status <;> simp [status])
    simp only at left
    omega

theorem toMark_step (run : Runs cfg t₀ db t s) (taken : step cfg s e = some s')
    (gone : s.db.jobs.row j = none) (ahead : ToMark s' j) :
    ToMark s j ∧ ¬ marks cfg j s e = true := by
  obtain ⟨w, job, at_, rfl⟩ := ahead
  have same : s'.stages w = s.stages w := by
    by_contra moves
    cases change_of_run run taken with
    | claims _ _ _ row _ stages =>
        cases (mine_of_update stages moves).2.symm.trans at_
        cases gone.symm.trans row
    | marks _ _ _ stages => cases (mine_of_update stages moves).2.symm.trans at_
    | carries _ _ stages => cases (mine_of_update stages moves).2.symm.trans at_
    | succeeds _ _ _ stages => cases (mine_of_update stages moves).2.symm.trans at_
    | fails _ _ _ stages => cases (mine_of_update stages moves).2.symm.trans at_
    | heartbeats _ stages => exact moves (congrFun stages w)
    | reaps _ stages => exact moves (congrFun stages w)
    | inserts _ stages => exact moves (congrFun stages w)
    | deletes _ _ _ stages => exact moves (congrFun stages w)
    | quiet _ stages => cases ((stages w).resolve_left moves).symm.trans at_
  have before := same.symm.trans at_
  refine ⟨⟨w, job, before, rfl⟩, fun hit => ?_⟩
  -- whoever marks the job is the worker itself, and is past the UPDATE afterwards
  obtain ⟨w₀, job₀, same₀, claimed, stages⟩ := marks_cases run taken (marks_iff.1 hit)
  by_cases mine : w₀ = w
  · subst mine
    rw [stages, Function.update_self] at at_
    cases at_
  · exact job_ne run (congrArg Stage.job? before) (congrArg Stage.job? claimed) mine same₀.symm

/-- The `'running'` UPDATEs of a job, whatever became of its row. -/
theorem marks_le (run : Runs cfg t₀ .empty t s) : ∀ m, budget cfg j t = some m →
    tally (marks cfg j) t ≤ max 1 m + tally (sweepsRunning cfg j) t ∧
      (ToMark s j → tally (marks cfg j) t < max 1 m + tally (sweepsRunning cfg j) t) := by
  -- with the row there, its account says so
  have present {t : History Sys Event} {s : Sys} (run : Runs cfg t₀ .empty t s) {r : Job} {m : ℕ}
      (row : s.db.jobs.row j = some r) (granted : budget cfg j t = some m) :
      tally (marks cfg j) t ≤ max 1 m + tally (sweepsRunning cfg j) t ∧
        (r.status = .claimed ∨ r.status = .pending →
          tally (marks cfg j) t < max 1 m + tally (sweepsRunning cfg j) t) := by
    cases (accounted_of_run run j r row).budget.symm.trans granted
    exact marks_le_of_row run row
  refine run.invariant (P := fun t s => ∀ m, budget cfg j t = some m →
    tally (marks cfg j) t ≤ max 1 m + tally (sweepsRunning cfg j) t ∧
      (ToMark s j → tally (marks cfg j) t < max 1 m + tally (sweepsRunning cfg j) t))
    (fun _ granted => by cases granted) ?_
  intro t s e s' run ih taken m granted
  have sweeps := tally_le (t := t) (s := s) (e := e) (sweepsRunning cfg j)
  cases row' : s'.db.jobs.row j with
  | some r' =>
      obtain ⟨le, lt⟩ := present (run.snoc taken) row' granted
      refine ⟨le, ?_⟩
      rintro ⟨w, job, at_, rfl⟩
      exact lt (status_of_claimed (run.snoc taken) at_ row')
  | none =>
      have earlier : budget cfg j t = some m := by
        rw [budget, Option.map_eq_some_iff] at granted ⊢
        obtain ⟨body, posted, same⟩ := granted
        refine ⟨body, (enqueued_cons posted).resolve_left ?_, same⟩
        rintro ⟨commits, next⟩
        rw [step_db taken, commits] at row'
        simp [Db.commit, Db.exec, SerialTable.row_insert, next] at row'
      cases row : s.db.jobs.row j with
      | some r =>
          -- the step deleted the row, which was pending
          have change := row_step run taken row
          rw [row'] at change
          cases change with
          | deletes commits pending =>
              have bound := (present run row earlier).2 (.inr pending)
              rw [tally_quiet (by simp [marks, commits])]
              exact ⟨by omega, fun _ => by omega⟩
      | none =>
          obtain ⟨le, lt⟩ := ih m earlier
          by_cases hit : marks cfg j s e = true
          · obtain ⟨w, job, same, at_, -⟩ := marks_cases run taken (marks_iff.1 hit)
            have bound := lt ⟨w, job, at_, same⟩
            refine ⟨by rw [tally_hit hit]; omega, fun ahead => ?_⟩
            exact absurd hit (toMark_step run taken row ahead).2
          · rw [tally_quiet hit]
            refine ⟨by omega, fun ahead => ?_⟩
            have bound := lt (toMark_step run taken row ahead).1
            omega

/-! ## The handler starts -/

/-- Inside `_execute_job` a worker comes before its handler by its `'running'` UPDATE only. -/
theorem starting_executeJob {locks : LockTable} {pc : Pc} {act : WorkerAct} {m : Move}
    (moved : executeJob cfg locks w pc act = some m) (at_ : m.pc = .starting job) :
    m.statement = some (.markRunning job.id) := by
  unfold executeJob at moved
  split at moved
  case h_1 =>
    cases moved
    cases at_
    rfl
  case h_3 => split at moved <;> cases moved <;> cases at_
  case h_11 id raised raises =>
    cases moved
    cases raised <;> cases at_
  case h_12 => cases moved
  all_goals
    cases moved
    cases at_

theorem starting_of_move {act : WorkerAct} {m : Move} (moved : s.runWorker cfg w act = some m)
    (at_ : m.pc = .starting job) : m.statement = some (.markRunning job.id) := by
  have advance := Sys.advance moved
  rw [Sys.runWorker] at moved
  generalize s.pc w = pc at moved advance
  cases advance with
  | rests _ _ _ _ idle' =>
      simp only at at_
      rw [at_] at idle'
      cases idle'
  | @carries _ pc' _ _ payload running _ =>
      have execute : executeJob cfg s.locks w pc act = some { pc := pc', locks := s.locks } := by
        rw [← moved]
        cases pc <;> first | rfl | cases running
      exact starting_executeJob execute at_
  | marks job => cases at_; rfl
  | abandons leaves => cases leaves <;> cases at_
  | unlocks id raised raises => cases raised <;> cases at_
  | _ => cases at_

/-- A worker is between its `'running'` UPDATE of `j` and the look-up of the handler. -/
def ToStart (s : Sys) (j : JobId) : Prop := ∃ w job, s.pc w = .starting job ∧ job.id = j

theorem toStart_step (taken : step cfg s e = some s') (ahead : ToStart s' j) :
    (∃ w job, s.pc w = .starting job ∧ job.id = j ∧ s'.pc w = s.pc w) ∨
      marks cfg j s e = true := by
  obtain ⟨w, job, at_, rfl⟩ := ahead
  cases worker_step taken w with
  | moves now moved pc _ =>
      subst now
      have sends := starting_of_move moved (pc.symm.trans at_)
      exact .inr (marks_iff.2 ((committed_of_moved moved).trans sends))
  | stays _ _ pc _ => exact .inl ⟨w, job, pc.symm.trans at_, rfl, pc⟩
  | spawns _ pc _ => cases pc.symm.trans at_
  | dies _ pc _ => cases pc.symm.trans at_

/-- After a handler starts nobody is before it. -/
theorem not_toStart_of_starts (run : Runs cfg t₀ db t s) (taken : step cfg s e = some s')
    (hit : starts cfg j s e = true) : ¬ ToStart s' j ∧ ToStart s j := by
  obtain ⟨w, job, at_, rfl, rfl, handler⟩ := starts_iff.1 hit
  refine ⟨fun ahead => ?_, ⟨w, job, at_, rfl⟩⟩
  have moved : s.runWorker cfg w .startHandler =
      some { pc := .handling job, locks := s.locks } := by
    simp [Sys.runWorker, runWorker, executeJob, at_, handler]
  rcases toStart_step taken ahead with ⟨w', job', at', same, stays⟩ | marked
  · have held : (s.pc w).held? = some job.id := by rw [at_]; rfl
    have held' : (s.pc w').held? = some job.id := by rw [at', ← same]; rfl
    cases held_unique run held held'
    rw [step_of_moved moved] at taken
    cases taken
    simp [Sys.moveWorker, at_] at stays
  · rw [marks_iff, committed_of_moved moved] at marked
    cases marked

/-- **Every handler start has a `'running'` UPDATE of its own.** -/
theorem starts_le_marks (run : Runs cfg t₀ db t s) :
    tally (starts cfg j) t ≤ tally (marks cfg j) t ∧
      (ToStart s j → tally (starts cfg j) t < tally (marks cfg j) t) := by
  refine run.invariant (P := fun t s => tally (starts cfg j) t ≤ tally (marks cfg j) t ∧
    (ToStart s j → tally (starts cfg j) t < tally (marks cfg j) t)) ?_ ?_
  · refine ⟨Nat.le_refl _, ?_⟩
    rintro ⟨w, job, at_, -⟩
    cases at_
  rintro t s e s' run ⟨le, lt⟩ taken
  by_cases hit : starts cfg j s e = true
  · obtain ⟨past, ahead⟩ := not_toStart_of_starts run taken hit
    have more := tally_le (t := t) (s := s) (e := e) (marks cfg j)
    have before := lt ahead
    rw [tally_hit hit]
    exact ⟨by omega, fun still => absurd still past⟩
  · rw [tally_quiet hit]
    have more := tally_le (t := t) (s := s) (e := e) (marks cfg j)
    refine ⟨by omega, fun ahead => ?_⟩
    rcases toStart_step taken ahead with ⟨w, job, at_, same, -⟩ | marked
    · have before := lt ⟨w, job, at_, same⟩
      omega
    · rw [tally_hit marked]
      omega

end

/-- **Bounded executions.**  In every run from empty tables the handler of a job is started
at most `max 1 max_retries` times, and once more for every sweep that took the row of the
job back from `'running'`. -/
theorem starts_bounded (cfg : Config) (t₀ : Time) {t : History Sys Event} {s : Sys}
    (run : Runs cfg t₀ .empty t s) (j : JobId) (maxRetries : ℕ)
    (enqueued : budget cfg j t = some maxRetries) :
    tally (starts cfg j) t ≤ max 1 maxRetries + tally (sweepsRunning cfg j) t :=
  (starts_le_marks run).1.trans (marks_le run maxRetries enqueued).1

/-- Job 1 has one attempt.  Its worker's process crashes in the handler, a sweep of another
process takes the row back, and a worker there starts the handler again. -/
def crashingRun : List Event :=
  [.createJob { demoJob with maxRetries := 1 }, .start 0, .start 1,
      .worker ⟨0, 0⟩ (.connect true), .worker ⟨1, 0⟩ (.connect true)] ++
    demoClaim ⟨0, 0⟩ [1] (some 1) ++
    [.worker ⟨0, 0⟩ (.markRunning false), .worker ⟨0, 0⟩ .startHandler, .crash 0, .tick 31] ++
    demoSweep 1 ++ demoClaim ⟨1, 0⟩ [1] (some 1) ++
    [.worker ⟨1, 0⟩ (.markRunning false), .worker ⟨1, 0⟩ .startHandler]

/-- The sweep of that run is what the second start is charged to. -/
theorem starts_bounded_crash :
    ∃ t s, Runs demo 0 .empty t s ∧ tally (sweepsRunning demo 1) t = 1 ∧
      tally (starts demo 1) t ≤ 2 := by
  obtain ⟨t, s, run, after⟩ := demo_run crashingRun
    (fun out => budget demo 1 out.1 = some 1 ∧ tally (sweepsRunning demo 1) out.1 = 1)
    (by decide +kernel)
  simp only [decide_eq_true_eq] at after
  obtain ⟨enqueued, sweeps⟩ := after
  have bound := starts_bounded demo 0 run 1 1 enqueued
  rw [sweeps] at bound
  exact ⟨t, s, run, sweeps, bound⟩

/-- A job with one attempt is executed twice. -/
theorem starts_beyond_budget :
    ∃ t s, Runs demo 0 .empty t s ∧ budget demo 1 t = some 1 ∧
      max 1 1 < tally (starts demo 1) t := by
  obtain ⟨t, s, run, after⟩ := demo_run crashingRun
    (fun out => budget demo 1 out.1 = some 1 ∧ tally (starts demo 1) out.1 = 2)
    (by decide +kernel)
  simp only [decide_eq_true_eq] at after
  obtain ⟨enqueued, twice⟩ := after
  exact ⟨t, s, run, enqueued, by rw [twice]; decide⟩

end TaskQueue
