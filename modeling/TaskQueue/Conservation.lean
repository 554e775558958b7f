/-
# TaskQueue.Conservation -- every job and every dead letter is accounted for

Jobs enter the table by an INSERT and leave it by a cancellation, and a job that dies puts
a row into `dead_letter_jobs`.  Neither table knows of the other, and a job may be
cancelled while a worker that lost it is still about to bury it.

* `letters_of_gone`: what is left of a job without a row.
* `letters_nodup`: no job is buried twice, not even one that was cancelled.
* `jobs_conserved`: the rows, the cancellations and the letters against the INSERTs.
* `quiet_metrics`: what `GET /metrics` answers about them.
* `metrics_match_lists`: that `GET /jobs` answers the same.
-/
import TaskQueue.Columns
import TaskQueue.DeadLetters
import TaskQueue.Listing
import TaskQueue.MetricsRace

namespace TaskQueue

set_option autoImplicit false

open Transition

section

variable {cfg : Config} {t₀ : Time} {t : History Sys Event} {s s' : Sys} {e : Event} {j : JobId}
  {r : Job}

/-! ## Executed jobs -/

/-- What a worker executes was enqueued. -/
theorem enqueued_of_executes (run : Runs cfg t₀ .empty t s) {w : WorkerId} :
    Executes s w j → ∃ body, enqueued cfg j t = some body := by
  refine run.invariant (P := fun t s =>
    Executes s w j → ∃ body, enqueued cfg j t = some body) ?_ ?_
  · rintro ⟨job, at_, -⟩
    cases at_
  intro t s e s' run ih taken executes
  have posted : ∃ body, enqueued cfg j t = some body := by
    rcases executes_step run taken executes with before | claims
    · exact ih before
    · obtain ⟨_, _, _, r, -, -, -, -, row, -⟩ := claims_step taken claims
      obtain ⟨body, _, posted, -⟩ := posted_of_row run j r row
      exact ⟨body, posted⟩
  obtain ⟨body, had⟩ := posted
  exact ⟨body, (enqueued_old (lt_next_of_enqueued run body had)).trans had⟩

/-! ## Letters of a job without a row -/

/-- Who buries a job executes it until then. -/
theorem executes_of_bury (run : Runs cfg t₀ .empty t s) (taken : step cfg s e = some s')
    {type error : String} {payload : Json} {attempts : ℕ} {w : WorkerId}
    (commits : committed cfg s e = some (.bury j type payload error attempts w)) :
    (∃ w, Executes s w j) ∧ ∀ w, ¬ Executes s' w j := by
  have decides : decided cfg s e j = some .failure := decided_some commits rfl
  refine ⟨?_, not_executes_of_decided run taken decides⟩
  cases change_of_run run taken with
  | @fails w' job error' commits' writes _ _ =>
      have same := (decides_handleFailure cfg job error' w').symm.trans
        (congrArg Statement.decides (Option.some.inj (commits'.symm.trans commits)))
      exact ⟨w', job, writes.job, by simpa [Statement.decides] using same⟩
  | claims commits' => cases commits.symm.trans commits'
  | marks commits' => cases commits.symm.trans commits'
  | carries commits' => cases commits.symm.trans commits'
  | succeeds commits' => cases commits.symm.trans commits'
  | heartbeats commits' => cases commits.symm.trans commits'
  | reaps commits' => cases commits.symm.trans commits'
  | inserts commits' => cases commits.symm.trans commits'
  | deletes commits' => cases commits.symm.trans commits'
  | quiet commits' => cases commits.symm.trans commits'

/-- A job whose key was not handed out before a step, nor in it, has no letter. -/
theorem letters_of_unborn (run : Runs cfg t₀ .empty t s) (taken : step cfg s e = some s')
    (new : ¬ j < s.db.jobs.next) (gone : s'.db.jobs.row j = none) : lettersOf s'.db j = [] := by
  rw [lettersOf, List.filter_eq_nil_iff]
  intro d member
  rw [decide_eq_true_eq]
  rintro rfl
  have below := letters_old (run.snoc taken) d member
  cases next : committed cfg s e with
  | none =>
      rw [step_db taken, next] at below
      exact new below
  | some st =>
      rw [step_db taken, next] at below gone
      cases st with
      | insertJob body =>
          simp only [Db.commit, Db.exec, SerialTable.next_insert] at below
          have here : d.originalId = s.db.jobs.next :=
            Nat.le_antisymm (Nat.lt_succ_iff.1 below) (not_lt.1 new)
          simp [Db.commit, Db.exec, SerialTable.row_insert, here] at gone
      | _ => exact new below

/-- A job without a row has at most one letter, and nobody executes it after that. -/
theorem letters_of_gone (run : Runs cfg t₀ .empty t s) :
    s.db.jobs.row j = none →
      lettersOf s.db j = [] ∨
        (lettersOf s.db j).length = 1 ∧ ∀ w, ¬ Executes s w j := by
  refine run.invariant (P := fun _ s => s.db.jobs.row j = none →
    lettersOf s.db j = [] ∨ (lettersOf s.db j).length = 1 ∧ ∀ w, ¬ Executes s w j) ?_ ?_
  · exact fun _ => .inl rfl
  intro t s e s' run ih taken gone
  by_cases old : j < s.db.jobs.next
  case neg => exact .inl (letters_of_unborn run taken old gone)
  rw [step_db taken] at gone ⊢
  cases row : s.db.jobs.row j with
  | some r =>
      -- the row is deleted now, pending and so without letters
      left
      have change := row_step run taken row
      rw [step_db taken, gone] at change
      cases change with
      | deletes commits pending =>
          rw [lettersOf_commit (by simp [commits])]
          apply (lettered_of_run run j r row).spared
          simp [pending]
  | none =>
      have keeps (w : WorkerId) (executes : Executes s' w j) : Executes s w j := by
        rcases executes_step run taken executes with before | claims
        · exact before
        · obtain ⟨_, _, _, _, -, -, -, -, there, -⟩ := claims_step taken claims
          cases row.symm.trans there
      by_cases buried : ∃ type payload error attempts w,
          committed cfg s e = some (.bury j type payload error attempts w)
      · obtain ⟨type, payload, error, attempts, w, commits⟩ := buried
        obtain ⟨⟨w', executes⟩, idle⟩ := executes_of_bury run taken commits
        have none_ : lettersOf s.db j = [] := (ih row).resolve_right fun one => one.2 w' executes
        right
        rw [commits, lettersOf_bury, none_]
        exact ⟨rfl, idle⟩
      · have same : lettersOf (s.db.commit s.now (committed cfg s e)) j = lettersOf s.db j :=
          lettersOf_commit fun type payload error attempts w commits =>
            buried ⟨type, payload, error, attempts, w, commits⟩
        rw [same]
        exact (ih row).imp_right fun one => ⟨one.1, fun w executes => one.2 w (keeps w executes)⟩

/-- No job is buried twice. -/
theorem lettersOf_le_one (run : Runs cfg t₀ .empty t s) (j : JobId) :
    (lettersOf s.db j).length ≤ 1 := by
  cases row : s.db.jobs.row j with
  | none =>
      rcases letters_of_gone run row with none_ | ⟨one, -⟩
      · simp [none_]
      · exact one.le
  | some r =>
      have lettered := lettered_of_run run j r row
      by_cases dead : r.status = .dead
      · obtain ⟨d, only, -⟩ := lettered.dead dead
        simp [only]
      · simp [lettered.spared dead]

theorem letters_nodup (run : Runs cfg t₀ .empty t s) :
    (s.db.deadLetters.map DeadLetter.originalId).Nodup := by
  apply List.nodup_iff_count_le_one.2
  intro j
  have counted : (s.db.deadLetters.map DeadLetter.originalId).count j =
      (lettersOf s.db j).length := by
    rw [List.count, List.countP_map, lettersOf, List.countP_eq_length_filter]
    rfl
  rw [counted]
  exact lettersOf_le_one run j

/-- A letter is addressed to a job that was enqueued. -/
theorem enqueued_of_letter (run : Runs cfg t₀ .empty t s) :
    ∀ d ∈ s.db.deadLetters, ∃ body, enqueued cfg d.originalId t = some body := by
  refine run.invariant (P := fun t s =>
    ∀ d ∈ s.db.deadLetters, ∃ body, enqueued cfg d.originalId t = some body)
    (fun d member => by cases member) ?_
  intro t s e s' run ih taken d member
  have posted : ∃ body, enqueued cfg d.originalId t = some body := by
    by_cases earlier : d ∈ s.db.deadLetters
    · exact ih d earlier
    · rw [step_db taken] at member
      cases commits : committed cfg s e with
      | none =>
          rw [commits] at member
          exact absurd member earlier
      | some st =>
          rw [commits] at member
          cases st with
          | bury id type payload error attempts w =>
              obtain ⟨⟨w', executes⟩, -⟩ := executes_of_bury run taken commits
              rw [List.mem_singleton.1 ((List.mem_append.1 member).resolve_left earlier)]
              exact enqueued_of_executes run executes
          | _ => exact absurd member earlier
  obtain ⟨body, had⟩ := posted
  exact ⟨body, (enqueued_old (lt_next_of_enqueued run body had)).trans had⟩

theorem mem_letters : j ∈ s.db.deadLetters.map DeadLetter.originalId ↔ lettersOf s.db j ≠ [] := by
  simp [lettersOf]

/-- A row is dead exactly if it has a letter. -/
theorem dead_iff_letter (run : Runs cfg t₀ .empty t s) (row : s.db.jobs.row j = some r) :
    r.status = .dead ↔ j ∈ s.db.deadLetters.map DeadLetter.originalId := by
  have lettered := lettered_of_run run j r row
  rw [mem_letters]
  constructor
  · intro dead
    obtain ⟨d, only, -⟩ := lettered.dead dead
    simp [only]
  · intro some_
    by_contra alive
    exact some_ (lettered.spared alive)

/-- A letter is that of a dead row, or of a job that was cancelled. -/
theorem letter_iff (run : Runs cfg t₀ .empty t s) (j : JobId) :
    (∃ r, s.db.jobs.row j = some r ∧ r.status = .dead) ↔
      j ∈ s.db.deadLetters.map DeadLetter.originalId ∧ ¬ Cancelled cfg j t := by
  have kept := row_iff_kept run j
  constructor
  · rintro ⟨r, row, dead⟩
    exact ⟨(dead_iff_letter run row).1 dead, (kept.1 ⟨r, row⟩).2⟩
  · rintro ⟨letter, uncancelled⟩
    obtain ⟨d, member, rfl⟩ := List.mem_map.1 letter
    obtain ⟨r, row⟩ := kept.2 ⟨enqueued_of_letter run d member, uncancelled⟩
    exact ⟨r, row, (dead_iff_letter run row).2 letter⟩

/-- The letters are as many as the dead rows and the letters of cancelled jobs. -/
theorem length_letters (run : Runs cfg t₀ .empty t s) :
    s.db.deadLetters.length = depthOf s.db .dead +
      s.db.deadLetters.countP fun d => (s.db.jobs.row d.originalId).isNone := by
  have dead : depthOf s.db .dead =
      s.db.deadLetters.countP fun d => (s.db.jobs.row d.originalId).isSome := by
    have among := SerialTable.countP_among (t := s.db.jobs) (letters_nodup run)
      fun r => decide (r.status = .dead)
    rw [List.countP_map] at among
    calc depthOf s.db .dead
        = s.db.jobs.entries.countP fun x =>
            x.1 ∈ s.db.deadLetters.map DeadLetter.originalId && decide (x.2.status = .dead) := by
          apply List.countP_congr
          intro x member
          have row : s.db.jobs.row x.1 = some x.2 := SerialTable.mem_entries.1 member
          simp [← dead_iff_letter run row]
      _ = _ := among
      _ = _ := by
          apply List.countP_congr
          intro d member
          cases row : s.db.jobs.row d.originalId with
          | none => simp [row]
          | some r =>
              have dead := (dead_iff_letter run row).2 (List.mem_map_of_mem member)
              simp [row, dead]
  rw [dead, List.length_eq_countP_add_countP fun d => (s.db.jobs.row d.originalId).isSome]
  refine congrArg₂ (· + ·) rfl (List.countP_congr fun d _ => ?_)
  cases s.db.jobs.row d.originalId <;> simp

/-! ## One quiet answer of the metrics -/

/-- No row ever has the status `failed`. -/
theorem depthOf_failed (run : Runs cfg t₀ .empty t s) : depthOf s.db .failed = 0 := by
  by_contra some_
  obtain ⟨j, r, row, failed⟩ := SerialTable.countWhere_pos_iff.1 (Nat.pos_of_ne_zero some_)
  exact (consistent_of_run run j r row).status (decide_eq_true_iff.1 failed)

theorem countStatus_done (db : Db) : countStatus [.done] db = depthOf db .done := by
  simp [countStatus, depthOf]

theorem countStatus_errored (run : Runs cfg t₀ .empty t s) :
    countStatus [.failed, .dead] s.db = depthOf s.db .dead := by
  apply List.countP_congr
  intro x member
  have alive := (consistent_of_run run x.1 x.2 (SerialTable.mem_entries.1 member)).status
  simp [alive]

theorem recentDone_le (now : Time) (db : Db) : recentDone now db ≤ depthOf db .done := by
  apply List.countP_mono_left
  intro x _ recent
  simp only [Sql.holds_and, Sql.holds_some, Bool.and_eq_true] at recent
  exact recent.1

/-- The mean is over all done rows, and over nonnegative times. -/
theorem avgExecution_spec (run : Runs cfg t₀ .empty t s) :
    (avgExecution s.db = none ↔ depthOf s.db .done = 0) ∧ ∀ x ∈ avgExecution s.db, 0 ≤ x := by
  have span (x : ℕ × Job) (member : x ∈ s.db.jobs.entries) (done : x.2.status = .done) :
      ∃ d, x.2.completedAt = some d ∧ x.2.createdAt ≤ d := by
    have consistent := consistent_of_run run x.1 x.2 (SerialTable.mem_entries.1 member)
    obtain ⟨d, at_⟩ := Option.ne_none_iff_exists'.1 (consistent.completed_iff.2 done)
    exact ⟨d, at_, (consistent.completed d at_).1⟩
  unfold avgExecution
  constructor
  · simp only [ite_eq_left_iff, List.filterMap_eq_nil_iff, reduceCtorEq, imp_false, not_not]
    rw [depthOf, SerialTable.countWhere, List.countP_eq_zero]
    apply forall₂_congr
    intro x member
    by_cases done : x.2.status = .done
    · obtain ⟨d, at_, -⟩ := span x member done
      simp [done, at_]
    · simp [done]
  · intro x mean
    simp only [Option.mem_def, Option.ite_none_left_eq_some, Option.some.injEq] at mean
    obtain ⟨-, rfl⟩ := mean
    refine div_nonneg (List.sum_nonneg fun y member => ?_) (Nat.cast_nonneg _)
    obtain ⟨x, entry, shown⟩ := List.mem_filterMap.1 member
    obtain ⟨done, map⟩ := Option.ite_none_right_eq_some.1 shown
    obtain ⟨d, at_, le⟩ := span x entry done
    rw [at_] at map
    cases map
    exact sub_nonneg.2 le

end

/-- **No job is lost, none is invented and none is buried twice.**  In every run from empty
tables the rows are those of the jobs that were enqueued and not cancelled, and the rows and the
cancellations are as many as the INSERTs.  No two dead letters are for one job, and a job has a
dead row exactly if it has a letter and was not cancelled. -/
theorem jobs_conserved (cfg : Config) (t₀ : Time) {t : History Sys Event} {s : Sys}
    (run : Runs cfg t₀ .empty t s) :
    (∀ j : ℕ, (∃ r, s.db.jobs.row j = some r) ↔
        (∃ body, enqueued cfg j t = some body) ∧ ¬ Cancelled cfg j t) ∧
      totalJobs s.db + tally (cancels cfg) t = tally (enqueues cfg) t ∧
      (s.db.deadLetters.map DeadLetter.originalId).Nodup ∧
      ∀ j, (∃ r, s.db.jobs.row j = some r ∧ r.status = .dead) ↔
        j ∈ s.db.deadLetters.map DeadLetter.originalId ∧ ¬ Cancelled cfg j t := by
  refine ⟨row_iff_kept run, ?_, letters_nodup run, letter_iff run⟩
  exact (total_run run).trans (Nat.zero_add _)

/-- Two jobs of an unknown type, with one attempt each.  The first is swept and cancelled while
a worker executes it, and that worker buries both. -/
def buriedRun : List Event :=
  [.createJob { demoJob with type := "resize", maxRetries := 1 },
    .createJob { demoJob with type := "resize", maxRetries := 1 }, .start 0,
    .worker ⟨0, 0⟩ (.connect true)] ++
    demoClaim ⟨0, 0⟩ [1] (some 1) ++ [.worker ⟨0, 0⟩ (.markRunning false), .tick 31] ++
    demoSweep 0 ++
    [.cancelJob 1, .worker ⟨0, 0⟩ .startHandler, .worker ⟨0, 0⟩ (.handleFailure false),
      .worker ⟨0, 0⟩ (.unlock false)] ++
    demoClaim ⟨0, 0⟩ [2] (some 2) ++ demoFail ⟨0, 0⟩

theorem buried_run :
    ∃ t s, Runs demo 0 .empty t s ∧ s.db.deadLetters.map DeadLetter.originalId = [1, 2] ∧
      tally (enqueues demo) t = 2 ∧ tally (cancels demo) t = 1 := by
  obtain ⟨t, s, run, after⟩ := demo_run buriedRun
    (fun out => out.2.db.deadLetters.map DeadLetter.originalId = [1, 2] ∧
      tally (enqueues demo) out.1 = 2 ∧ tally (cancels demo) out.1 = 1) (by decide +kernel)
  exact ⟨t, s, run, decide_eq_true_iff.1 after⟩

/-- One of two jobs has a row, and both have letters. -/
theorem jobs_conserved_buried :
    ∃ t s, Runs demo 0 .empty t s ∧ totalJobs s.db = 1 ∧ s.db.deadLetters.length = 2 ∧
      (s.db.deadLetters.map DeadLetter.originalId).Nodup := by
  obtain ⟨t, s, run, letters, enqueued, cancelled⟩ := buried_run
  obtain ⟨-, total, distinct, -⟩ := jobs_conserved demo 0 run
  refine ⟨t, s, run, by omega, ?_, distinct⟩
  rw [← List.length_map (f := DeadLetter.originalId), letters]
  rfl

/-- **What a quiet answer of the metrics says of the history.**  When the tables do not change
during a call of `get_metrics`, the depths add up to the total, which is the jobs enqueued
less those cancelled; `failed` is zero; the dead letters exceed the dead rows by the letters of
cancelled jobs; the error rate is that of the dead among the done and the dead; and the mean
time is there exactly if some row is done, and not negative.  The rates and the mean are those
before `round`. -/
theorem quiet_metrics (cfg : Config) (t₀ : Time) (g : Gauges) {t : History Sys Event} {s : Sys}
    (run : Runs cfg t₀ .empty t s) (answer : MetricsResponse)
    (answers : (quietCall cfg s).answer g = answer) :
    answer.queueDepth.sum = answer.totalJobs ∧
      answer.totalJobs + tally (cancels cfg) t = tally (enqueues cfg) t ∧
      answer.queueDepth.failed = 0 ∧
      answer.deadLetterCount = answer.queueDepth.dead +
        s.db.deadLetters.countP (fun d => (s.db.jobs.row d.originalId).isNone) ∧
      answer.errorRate * (answer.queueDepth.done + answer.queueDepth.dead) =
        answer.queueDepth.dead ∧
      60 * answer.jobsPerSecond ≤ answer.queueDepth.done ∧
      (answer.avgExecutionSeconds = none ↔ answer.queueDepth.done = 0) ∧
      ∀ x ∈ answer.avgExecutionSeconds, 0 ≤ x := by
  subst answers
  have depth (status : Status) :
      ((quietCall cfg s).answer g).queueDepth.get status = depthOf s.db status :=
    queueDepth_getMetrics g _ status
  have dead : ((quietCall cfg s).answer g).queueDepth.dead = depthOf s.db .dead := depth .dead
  have done : ((quietCall cfg s).answer g).queueDepth.done = depthOf s.db .done := depth .done
  rw [dead, done]
  refine ⟨sum_queueDepth g _, (total_run run).trans (Nat.zero_add _),
    (depth .failed).trans (depthOf_failed run), length_letters run, ?_, ?_, avgExecution_spec run⟩
  · have rate : ((quietCall cfg s).answer g).errorRate =
        if countStatus [.done, .failed, .dead] s.db = 0 then 0
        else (countStatus [.failed, .dead] s.db : ℚ) /
          countStatus [.done, .failed, .dead] s.db := rfl
    rw [rate, terminal_split, countStatus_done, countStatus_errored run]
    split
    · rename_i none_
      have zero : depthOf s.db .dead = 0 := by omega
      simp [zero]
    · rename_i some_
      rw [Nat.cast_add, div_mul_cancel₀]
      exact_mod_cast some_
  · have recent : ((quietCall cfg s).answer g).jobsPerSecond = recentDone s.now s.db / 60 := rfl
    rw [recent, mul_div_cancel₀ _ (by norm_num)]
    exact_mod_cast recentDone_le s.now s.db

/-- Of two jobs one is counted, as dead, and both letters are. -/
theorem quiet_metrics_buried :
    ∃ t s, Runs demo 0 .empty t s ∧ ((quietCall demo s).answer .fresh).totalJobs = 1 ∧
      ((quietCall demo s).answer .fresh).deadLetterCount = 2 ∧
      ((quietCall demo s).answer .fresh).queueDepth.failed = 0 := by
  obtain ⟨t, s, run, letters, enqueued, cancelled⟩ := buried_run
  obtain ⟨-, total, failed, -⟩ := quiet_metrics demo 0 .fresh run _ rfl
  refine ⟨t, s, run, by omega, ?_, failed⟩
  show s.db.deadLetters.length = 2
  rw [← List.length_map (f := DeadLetter.originalId), letters]
  rfl

/-! ## The lists that the metrics count -/

/-- `?status=…` on top of the other filters. -/
def JobFilters.withStatus (f : JobFilters) (status : Status) : JobFilters :=
  { f with status := some status.text }

/-- One number for each status. -/
def depths (count : Status → ℕ) : QueueDepthByStatus where
  pending := count .pending
  claimed := count .claimed
  running := count .running
  done := count .done
  failed := count .failed
  dead := count .dead

theorem matches_withStatus {f : JobFilters} (any : f.status = none) (status : Status) (r : Job) :
    (f.withStatus status).Matches r ↔ f.Matches r ∧ r.status = status := by
  have text : r.status.text = status.text ↔ r.status = status := by
    cases r.status <;> cases status <;> decide
  simp [JobFilters.withStatus, JobFilters.Matches, any, text]
  tauto

/-- The rows that match are in one status each. -/
theorem sum_withStatus {f : JobFilters} (any : f.status = none) (db : Db) :
    (depths fun status => (matching db (f.withStatus status)).length).sum =
      (matching db f).length := by
  simp only [depths, QueueDepthByStatus.sum, matching, ← List.countP_eq_length_filter,
    matches_withStatus any, Bool.decide_and]
  induction db.jobs.entries with
  | nil => rfl
  | cons x rest ih =>
      simp only [List.countP_cons]
      by_cases kept : f.Matches x.2
      · cases x.2.status <;> simp [kept] <;> omega
      · simpa [kept] using ih

/-- The lists of a status that carry no other filter have as many rows as `get_metrics` counts. -/
theorem length_withStatus {f : JobFilters} (bare : f = ⟨none, none, none⟩) (db : Db)
    (status : Status) : (matching db (f.withStatus status)).length = depthOf db status := by
  rw [matching, ← List.countP_eq_length_filter, depthOf, SerialTable.countWhere]
  apply List.countP_congr
  intro x _
  have all : f.Matches x.2 := by
    subst bare
    exact ⟨(fun _ given => by cases given), (fun _ given => by cases given),
      fun _ given => by cases given⟩
  rw [decide_eq_true_iff, decide_eq_true_iff, matches_withStatus (by rw [bare]),
    and_iff_right all]

/-- **The metrics and the lists agree.**  At one moment, the totals of the lists with each status
add up to the total of the list without, whatever its other filters, pages and orders; and
without other filters they are the depths that `get_metrics` answers. -/
theorem metrics_match_lists (cfg : Config) (g : Gauges) (s : Sys) (repr : String → String)
    (takes : Param → Bool) (f : JobFilters) (nonEmpty : f.NonEmpty) (any : f.status = none)
    (arrange : Status → Paging.Arrangement createdAt) (limit : Status → PageLimit)
    (offset : Status → ℕ) (page : Status → JobListResponse)
    (pages : ∀ status, listJobs repr takes s.db (arrange status) (f.withStatus status)
      (limit status) (offset status) = .ok (page status))
    (arrangeAll : Paging.Arrangement createdAt) (limitAll : PageLimit) (offsetAll : ℕ)
    (all : JobListResponse)
    (answered : listJobs repr takes s.db arrangeAll f limitAll offsetAll = .ok all) :
    (depths fun status => (page status).total).sum = all.total ∧
      (f = ⟨none, none, none⟩ → ∀ status,
        (page status).total = ((quietCall cfg s).answer g).queueDepth.get status) := by
  have total (status : Status) :
      (page status).total = (matching s.db (f.withStatus status)).length := by
    refine ((listJobs_ok_iff ?_).1 (pages status)).2.2.2.1
    have named : some status.text ≠ some "" := by cases status <;> decide
    exact ⟨named, nonEmpty.2⟩
  simp only [total, ((listJobs_ok_iff nonEmpty).1 answered).2.2.2.1]
  refine ⟨sum_withStatus any s.db, fun bare status => ?_⟩
  exact (length_withStatus bare s.db status).trans
    (queueDepth_getMetrics g (quietCall cfg s).reads status).symm

/-- The pages behind the last row of a table of two jobs. -/
theorem metrics_match_lists_pair :
    ∃ page : Status → JobListResponse, (depths fun status => (page status).total).sum = 2 ∧
      (page .pending).total =
        ((quietCall demo (.boot 1 (demoPair 1))).answer .fresh).queueDepth.pending := by
  obtain ⟨order, arranges⟩ := Paging.exists_arranges createdAt (matching (demoPair 1) noFilters)
  obtain ⟨arrange, -⟩ := Paging.exists_arrangement arranges
  have behind (f : JobFilters) (nonEmpty : f.NonEmpty)
      (accepted : ∀ s ∈ f.status, s ∈ validStatuses) (two : (matching (demoPair 1) f).length ≤ 2) :
      listJobs id (fun _ => true) (demoPair 1) arrange f ⟨1, by decide⟩ 2 =
        .ok ⟨[], (matching (demoPair 1) f).length, 1, 2⟩ := by
    refine (listJobs_ok_iff nonEmpty).2 ⟨accepted, fun _ _ => rfl, ?_, rfl, rfl, rfl⟩
    have short := (arrange.arranges (matching (demoPair 1) f)).perm.length_eq
    rw [List.drop_eq_nil_of_le (by omega)]
    rfl
  have all := behind noFilters (by decide) (by decide) (by decide +kernel)
  have pages (status : Status) := behind (noFilters.withStatus status)
    (by cases status <;> decide) (by cases status <;> decide) (by cases status <;> decide +kernel)
  obtain ⟨sum, depth⟩ := metrics_match_lists demo .fresh (.boot 1 (demoPair 1)) id
    (fun _ => true) noFilters (by decide) rfl (fun _ => arrange) (fun _ => ⟨1, by decide⟩)
    (fun _ => 2) _ pages arrange ⟨1, by decide⟩ 2 _ all
  exact ⟨_, sum.trans (by decide +kernel), depth rfl .pending⟩

end TaskQueue
