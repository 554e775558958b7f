/-
# TaskQueue.MetricsRace -- one `get_metrics` call under a running system

The seven queries of a call run outside a transaction, so the workers, the reapers and the
API commit between them.  What the answer mixes are the counts of three of those states: the
error rate divides the errors at one query by the terminal rows at the query before, and
the depths are counted before the total is.

* `errored_run` and `total_run`: between two states the errors grow by the deaths, and the
  rows by the enqueued jobs less the cancelled ones.
-/
import Mathlib.Algebra.Order.Field.Basic
import Mathlib.Algebra.Field.Rat
import Mathlib.Tactic.Positivity
import TaskQueue.Metrics
import TaskQueue.Ownership

namespace TaskQueue

set_option autoImplicit false

open Transition

/-- The step is the death of a job whose row is there. -/
def deaths (cfg : Config) (s : Sys) (e : Event) : Bool :=
  match committed cfg s e with
  | some (.bury id _ _ _ _ _) => (s.db.jobs.row id).isSome
  | _ => false

/-- The step is the INSERT of a job. -/
def enqueues (cfg : Config) (s : Sys) (e : Event) : Bool :=
  match committed cfg s e with
  | some (.insertJob _) => true
  | _ => false

/-- The step is the DELETE of a job. -/
def cancels (cfg : Config) (s : Sys) (e : Event) : Bool :=
  match committed cfg s e with
  | some (.deleteJob _) => true
  | _ => false

/-- The state that each query of one call sees, in their order, and what the system does
between one and the next. -/
structure MetricsCallRun (cfg : Config) where
  depth : Sys
  recent : Sys
  terminal : Sys
  errored : Sys
  average : Sys
  total : Sys
  letters : Sys
  toRecent : History Sys Event
  toTerminal : History Sys Event
  toErrored : History Sys Event
  toAverage : History Sys Event
  toTotal : History Sys Event
  toLetters : History Sys Event
  recentRun : Run (step cfg) depth toRecent recent
  terminalRun : Run (step cfg) recent toTerminal terminal
  erroredRun : Run (step cfg) terminal toErrored errored
  averageRun : Run (step cfg) errored toAverage average
  totalRun : Run (step cfg) average toTotal total
  lettersRun : Run (step cfg) total toLetters letters

namespace MetricsCallRun

variable {cfg : Config}

def reads (call : MetricsCallRun cfg) : MetricsReads where
  depth := call.depth.db
  recentAt := call.recent.now
  recent := call.recent.db
  terminal := call.terminal.db
  errored := call.errored.db
  average := call.average.db
  total := call.total.db
  letters := call.letters.db

def answer (call : MetricsCallRun cfg) (g : Gauges) : MetricsResponse :=
  (getMetrics g call.reads).2

/-- What happens between the first query and the one that counts the rows. -/
def beforeTotal (call : MetricsCallRun cfg) : History Sys Event :=
  call.toTotal ++ (call.toAverage ++ (call.toErrored ++ (call.toTerminal ++ call.toRecent)))

theorem runBeforeTotal (call : MetricsCallRun cfg) :
    Run (step cfg) call.depth call.beforeTotal call.total :=
  (((call.recentRun.append call.terminalRun).append call.erroredRun).append
    call.averageRun).append call.totalRun

end MetricsCallRun

section

variable {cfg : Config} {t₀ : Time} {db : Db} {t u : History Sys Event} {s s' : Sys} {e : Event}

/-! ## The errors -/

/-- A step other than the death of job `j` leaves its row errored or not errored. -/
theorem errored_row (run : Runs cfg t₀ db t s) (taken : step cfg s e = some s') (j : JobId)
    (survives : ∀ type payload error attempts w,
      committed cfg s e ≠ some (.bury j type payload error attempts w)) :
    ((s'.db.jobs.row j).any fun r => r.status ∈ [.failed, .dead]) =
      (s.db.jobs.row j).any fun r => r.status ∈ [.failed, .dead] := by
  have live {r : Job} (live : r.Live) : decide (r.status ∈ [Status.failed, .dead]) = false := by
    rcases live with status | status | status <;> simp [status]
  cases row : s.db.jobs.row j with
  | none =>
      cases row' : s'.db.jobs.row j with
      | none => rfl
      | some r' =>
          rw [step_db taken] at row'
          obtain ⟨body, -, -, rfl⟩ := row_new row row'
          rfl
  | some r =>
      have change := row_step run taken row
      generalize s'.db.jobs.row j = after at change
      cases change with
      | keeps _ _ => rfl
      | claims _ pending => simp [Job.setClaimed, pending]
      | marks _ _ _ holds => exact (live holds.live).symm
      | succeeds _ _ _ holds => exact (live holds.live).symm
      | dies commits _ _ _ _ => exact absurd commits (survives _ _ _ _ _)
      | retries _ _ _ holds _ => exact (live holds.live).symm
      | beats _ _ _ => rfl
      | reclaims _ stale => exact (live (.inr (Job.isStale_iff.1 stale).1)).symm
      | deletes _ pending => simp [pending]

/-- The errors grow by the deaths of a step. -/
theorem errored_step (run : Runs cfg t₀ db t s) (taken : step cfg s e = some s') :
    countStatus [.failed, .dead] s'.db =
      countStatus [.failed, .dead] s.db + if deaths cfg s e then 1 else 0 := by
  by_cases dies : ∃ j type payload error attempts w,
      committed cfg s e = some (.bury j type payload error attempts w)
  · obtain ⟨j, type, payload, error, attempts, w, commits⟩ := dies
    have elsewhere : ∀ i, i ≠ j → s'.db.jobs.row i = s.db.jobs.row i := by
      intro i other
      simp [step_db taken, commits, Db.commit, Db.exec, SerialTable.row_updateKey, other]
    have moved := SerialTable.countWhere_at_key
      (fun r => decide (r.status ∈ [Status.failed, .dead])) j elsewhere
    simp only [deaths, commits]
    cases row : s.db.jobs.row j with
    | none =>
        have row' : s'.db.jobs.row j = none := by
          simp [step_db taken, commits, Db.commit, Db.exec, SerialTable.row_updateKey, row]
        rw [row, row'] at moved
        simpa [countStatus] using moved
    | some r =>
        have change := row_step run taken row
        generalize row' : s'.db.jobs.row j = after at change
        have live : r.Live := by
          cases change with
          | dies _ _ _ holds _ => exact holds.live
          | keeps undecided _ => simp [decided, commits, Statement.decides] at undecided
          | claims commits' => cases commits.symm.trans commits'
          | marks commits' => cases commits.symm.trans commits'
          | succeeds commits' => cases commits.symm.trans commits'
          | retries commits' => cases commits.symm.trans commits'
          | beats commits' => cases commits.symm.trans commits'
          | reclaims commits' => cases commits.symm.trans commits'
          | deletes commits' => cases commits.symm.trans commits'
        have dead : s'.db.jobs.row j = some (r.setDead error) := by
          simp [step_db taken, commits, Db.commit, Db.exec, SerialTable.row_updateKey, row]
        rw [row, dead] at moved
        have notErrored : r.status ≠ .failed ∧ r.status ≠ .dead := by
          rcases live with status | status | status <;> simp [status]
        simpa [countStatus, Job.setDead, notErrored] using moved
  · have quiet : deaths cfg s e = false := by
      unfold deaths
      split
      · rename_i commits
        exact absurd ⟨_, _, _, _, _, _, commits⟩ dies
      · rfl
    rw [quiet]
    exact SerialTable.countWhere_congr fun j => errored_row run taken j
      fun type payload error attempts w commits =>
        dies ⟨j, type, payload, error, attempts, w, commits⟩

theorem errored_run (run : Runs cfg t₀ db t s) (rest : Run (step cfg) s u s') :
    countStatus [.failed, .dead] s'.db =
      countStatus [.failed, .dead] s.db + tally (deaths cfg) u := by
  induction rest with
  | nil => rfl
  | snoc before taken ih =>
      rw [errored_step (run.append before) taken, ih, tally_cons]
      omega

/-! ## The rows -/

/-- The number of rows. -/
def totalJobs (db : Db) : ℕ := db.jobs.countWhere fun _ => true

/-- A step adds the job that it enqueues and removes the one that it cancels. -/
theorem total_step (taken : step cfg s e = some s') :
    totalJobs s'.db + (if cancels cfg s e then 1 else 0) =
      totalJobs s.db + if enqueues cfg s e then 1 else 0 := by
  rw [step_db taken]
  cases commits : committed cfg s e with
  | none => simp [cancels, enqueues, commits, Db.commit]
  | some st =>
      have kept (same : ∀ i, ((s.db.exec s.now st).jobs.row i).isSome =
          (s.db.jobs.row i).isSome) :
          totalJobs (s.db.exec s.now st) = totalJobs s.db := by
        refine SerialTable.countWhere_congr fun i => ?_
        have there (o : Option Job) : (o.any fun _ => true) = o.isSome := by cases o <;> rfl
        rw [there, there]
        exact same i
      cases st with
      | insertJob body =>
          have elsewhere : ∀ i, i ≠ s.db.jobs.next →
              (s.db.exec s.now (.insertJob body)).jobs.row i = s.db.jobs.row i := fun i other => by
            simp [Db.exec, SerialTable.row_insert, other]
          have added := SerialTable.countWhere_at_key (fun _ => true) s.db.jobs.next elsewhere
          simpa [cancels, enqueues, commits, totalJobs, Db.commit, Db.exec,
            SerialTable.row_insert, s.db.jobs.fresh _ (Nat.le_refl _)] using added
      | deleteJob id =>
          obtain ⟨r, row, -⟩ := delete_pending taken commits
          have elsewhere : ∀ i, i ≠ id →
              (s.db.exec s.now (.deleteJob id)).jobs.row i = s.db.jobs.row i := fun i other => by
            simp [Db.exec, SerialTable.row_delete, other]
          have removed := SerialTable.countWhere_at_key (fun _ => true) id elsewhere
          simpa [cancels, enqueues, commits, totalJobs, Db.commit, Db.exec,
            SerialTable.row_delete, row] using removed
      | heartbeat w =>
          simpa [cancels, enqueues, commits, Db.commit] using kept fun i => by simp [Db.exec]
      | reap =>
          simpa [cancels, enqueues, commits, Db.commit] using kept fun i => by simp [Db.exec]
      | _ =>
          simpa [cancels, enqueues, commits, Db.commit] using kept fun i => by
            simp only [Db.exec, SerialTable.row_updateKey]
            split <;> simp

theorem total_run (rest : Run (step cfg) s u s') :
    totalJobs s'.db + tally (cancels cfg) u = totalJobs s.db + tally (enqueues cfg) u := by
  induction rest with
  | nil => rfl
  | snoc _ taken ih =>
      have moved := total_step taken
      rw [tally_cons, tally_cons]
      omega

end

/-! ## What one answer mixes -/

/-- Terminal rows are done or errored. -/
theorem terminal_split (db : Db) :
    countStatus [.done, .failed, .dead] db =
      countStatus [.done] db + countStatus [.failed, .dead] db := by
  have split := db.jobs.countWhere_or (p := fun r => decide (r.status ∈ [Status.done]))
    (q := fun r => decide (r.status ∈ [Status.failed, .dead])) fun r done => by
      simp only [List.mem_singleton, decide_eq_true_eq] at done
      simp [done]
  rw [countStatus, countStatus, countStatus, ← split]
  simp only [List.mem_cons, List.not_mem_nil, or_false, Bool.decide_or]

theorem terminal_zero_iff {db : Db} :
    countStatus [.done, .failed, .dead] db = 0 ↔ ∀ j r, db.jobs.row j = some r → r.Live := by
  have pos : 0 < countStatus [.done, .failed, .dead] db ↔
      ∃ j r, db.jobs.row j = some r ∧ r.status ∈ [Status.done, .failed, .dead] := by
    simp [countStatus, SerialTable.countWhere_pos_iff]
  constructor
  · intro none_ j r row
    have notTerminal : r.status ∉ [Status.done, .failed, .dead] := fun terminal =>
      Nat.ne_of_gt (pos.2 ⟨j, r, row, terminal⟩) none_
    unfold Job.Live
    cases status : r.status <;> simp_all
  · intro live
    by_contra some_
    obtain ⟨j, r, row, terminal⟩ := pos.1 (Nat.pos_of_ne_zero some_)
    rcases live j r row with status | status | status <;> simp [status] at terminal

/-- Every row is in one of the six statuses. -/
theorem sum_queueDepth (g : Gauges) (reads : MetricsReads) :
    (getMetrics g reads).2.queueDepth.sum = totalJobs reads.depth := by
  have depth := queueDepth_getMetrics g reads
  have sum : (getMetrics g reads).2.queueDepth.sum =
      depthOf reads.depth .pending + depthOf reads.depth .claimed + depthOf reads.depth .running +
        depthOf reads.depth .done + depthOf reads.depth .failed + depthOf reads.depth .dead := by
    simp only [← depth]
    rfl
  rw [sum]
  simp only [depthOf, totalJobs, SerialTable.countWhere, List.countP_true]
  induction reads.depth.jobs.entries with
  | nil => rfl
  | cons x rest ih =>
      simp only [List.countP_cons, List.length_cons]
      cases x.2.status <;> simp <;> omega

theorem errorRate_le_one_iff (g : Gauges) (reads : MetricsReads) :
    (getMetrics g reads).2.errorRate ≤ 1 ↔
      countStatus [.done, .failed, .dead] reads.terminal = 0 ∨
        countStatus [.failed, .dead] reads.errored ≤
          countStatus [.done, .failed, .dead] reads.terminal := by
  simp only [getMetrics]
  split
  · rename_i none_
    simp [none_]
  · rename_i some_
    have pos : (0 : ℚ) < countStatus [.done, .failed, .dead] reads.terminal := by
      exact_mod_cast Nat.pos_of_ne_zero some_
    rw [div_le_one pos, or_iff_right some_]
    exact Nat.cast_le

theorem errorRate_nonneg (g : Gauges) (reads : MetricsReads) :
    0 ≤ (getMetrics g reads).2.errorRate := by
  simp only [getMetrics]
  split
  · exact le_refl 0
  · positivity

/-- **When one answer is consistent.**  For every call of `get_metrics`, from any tables and
under any interleaving, the error rate is in [0, 1] and the six depths add up to the total,
exactly when no row is terminal at the third query or no more jobs die between the third
and the fourth than are done at the third, and as many jobs are enqueued as cancelled
between the first query and the sixth. -/
theorem metrics_consistent_iff (cfg : Config) (t₀ : Time) (db : Db) (g : Gauges)
    (call : MetricsCallRun cfg) {t : History Sys Event} (run : Runs cfg t₀ db t call.depth) :
    ((0 ≤ (call.answer g).errorRate ∧ (call.answer g).errorRate ≤ 1) ∧
        (call.answer g).queueDepth.sum = (call.answer g).totalJobs) ↔
      ((∀ j r, call.terminal.db.jobs.row j = some r → r.Live) ∨
          tally (deaths cfg) call.toErrored ≤ countStatus [.done] call.terminal.db) ∧
        tally (enqueues cfg) call.beforeTotal = tally (cancels cfg) call.beforeTotal := by
  have errored := errored_run ((run.append call.recentRun).append call.terminalRun) call.erroredRun
  have total := total_run call.runBeforeTotal
  refine and_congr ?_ ?_
  · have terminal := terminal_split call.terminal.db
    rw [MetricsCallRun.answer, and_iff_right (errorRate_nonneg g call.reads),
      errorRate_le_one_iff, ← terminal_zero_iff]
    simp only [MetricsCallRun.reads, errored, terminal]
    omega
  · rw [MetricsCallRun.answer, sum_queueDepth]
    change totalJobs call.depth.db = totalJobs call.total.db ↔ _
    omega

/-- A call during which the system stands still. -/
def quietCall (cfg : Config) (s : Sys) : MetricsCallRun cfg where
  depth := s
  recent := s
  terminal := s
  errored := s
  average := s
  total := s
  letters := s
  toRecent := []
  toTerminal := []
  toErrored := []
  toAverage := []
  toTotal := []
  toLetters := []
  recentRun := .nil
  terminalRun := .nil
  erroredRun := .nil
  averageRun := .nil
  totalRun := .nil
  lettersRun := .nil

/-- The first worker writes the failure of its job. -/
def firstFails : Event := .worker ⟨0, 0⟩ (.handleFailure false)

/-- One job that is done, and one of an unknown type about to die at its only attempt. -/
def doneThenFailing : List Event :=
  [.createJob demoJob, .createJob { demoJob with type := "resize", maxRetries := 1 }, .start 0,
    .worker ⟨0, 0⟩ (.connect true)] ++
    demoClaim ⟨0, 0⟩ [1] (some 1) ++ demoDone ⟨0, 0⟩ ++ demoClaim ⟨0, 0⟩ [2] (some 2) ++
    [.worker ⟨0, 0⟩ (.markRunning false), .worker ⟨0, 0⟩ .startHandler]

/-- A job is enqueued before the third query, another one dies before the fourth, and the
first of them is cancelled before the sixth: the done job covers the death and the
cancellation the INSERT, and the answer is consistent. -/
theorem metrics_consistent_covered :
    ∃ (call : MetricsCallRun demo) (t : History Sys Event), Runs demo 0 .empty t call.depth ∧
      tally (deaths demo) call.toErrored = 1 ∧ tally (enqueues demo) call.beforeTotal = 1 ∧
      (0 ≤ (call.answer .fresh).errorRate ∧ (call.answer .fresh).errorRate ≤ 1) ∧
      (call.answer .fresh).queueDepth.sum = (call.answer .fresh).totalJobs := by
  obtain ⟨t, s, run, after⟩ := demo_run doneThenFailing
    (fun out => (step demo out.2 (.createJob demoJob)).any fun a =>
      countStatus [.done] a.db = 1 ∧ deaths demo a firstFails ∧
        (step demo a firstFails).any fun b => (step demo b (.cancelJob 3)).isSome ∧
          tally (enqueues demo)
              [(b, .cancelJob 3), (a, firstFails), (out.2, .createJob demoJob)] = 1 ∧
            tally (cancels demo)
              [(b, .cancelJob 3), (a, firstFails), (out.2, .createJob demoJob)] = 1)
    (by decide +kernel)
  simp only [decide_eq_true_eq, Option.any_eq_true, Option.isSome_iff_exists] at after
  obtain ⟨a, enqueued, one, death, b, dies, ⟨c, cancelled⟩, inserts, deletes⟩ := after
  have once : tally (deaths demo) [(a, firstFails)] = 1 := tally_hit death
  refine ⟨{ quietCall demo s with
      recent := a, terminal := a, errored := b, average := c, total := c, letters := c
      toRecent := [(s, _)], toErrored := [(a, _)], toAverage := [(b, _)]
      recentRun := .single enqueued, terminalRun := .nil, erroredRun := .single dies
      averageRun := .single cancelled, totalRun := .nil, lettersRun := .nil }, t, run, once,
    inserts, (metrics_consistent_iff demo 0 .empty .fresh _ run).2
      ⟨.inr (once.trans one.symm).le, inserts.trans deletes.symm⟩⟩

/-- Two jobs of an unknown type, with one attempt each, and one worker: the first job is
dead and the second is about to be. -/
def secondFailing : List Event :=
  [.createJob { demoJob with type := "resize", maxRetries := 1 },
    .createJob { demoJob with type := "resize", maxRetries := 1 }, .start 0,
    .worker ⟨0, 0⟩ (.connect true)] ++
    demoClaim ⟨0, 0⟩ [1] (some 1) ++ demoFail ⟨0, 0⟩ ++ demoClaim ⟨0, 0⟩ [2] (some 2) ++
    [.worker ⟨0, 0⟩ (.markRunning false), .worker ⟨0, 0⟩ .startHandler]

/-- The second job dies between the third and the fourth query, and a job is enqueued before
the sixth: an error rate of 2, and depths that add up to one job less than the total. -/
theorem metrics_of_racing_death :
    ∃ (call : MetricsCallRun demo) (t : History Sys Event), Runs demo 0 .empty t call.depth ∧
      (call.answer .fresh).errorRate = 2 ∧
      (call.answer .fresh).queueDepth.sum + 1 = (call.answer .fresh).totalJobs := by
  obtain ⟨t, s, run, after⟩ := demo_run secondFailing
    (fun out => countStatus [.done, .failed, .dead] out.2.db = 1 ∧ totalJobs out.2.db = 2 ∧
      (step demo out.2 firstFails).any fun s' =>
        countStatus [.failed, .dead] s'.db = 2 ∧
          (step demo s' (.createJob demoJob)).any fun s'' => totalJobs s''.db = 3)
    (by decide +kernel)
  simp only [decide_eq_true_eq, Option.any_eq_true] at after
  obtain ⟨one, two, s', dies, errors, s'', enqueued, three⟩ := after
  refine ⟨{ quietCall demo s with
      errored := s', average := s', total := s'', letters := s'', toErrored := [(s, _)],
      toTotal := [(s', _)], erroredRun := .single dies, averageRun := .nil,
      totalRun := .single enqueued, lettersRun := .nil }, t, run, ?_, ?_⟩
  · simp [MetricsCallRun.answer, MetricsCallRun.reads, quietCall, getMetrics, one, errors]
  · rw [MetricsCallRun.answer, sum_queueDepth]
    exact (congrArg (· + 1) two).trans three.symm

end TaskQueue
