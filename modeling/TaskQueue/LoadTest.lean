/-
# TaskQueue.LoadTest -- the throughput benchmark

`load.py` enqueues `noop` jobs, counts the final ones until the count is the number of its
ids, and then samples the latencies of those that are done.  The count asks for `done`, `dead`
and `failed`, the sample for `done` only, and a job may have become either.

* `waitForCount` is its `wait_for_completion`, `sampleLatencies` the sample.
* `load_test_samples_all`: after a wait that did not time out the sample has every job that
  did not die, and of `noop` jobs every one.
-/
import TaskQueue.BuiltinJobs
import TaskQueue.Completion

namespace TaskQueue

set_option autoImplicit false

open Transition

/-- `SELECT COUNT(*) FROM jobs WHERE id = ANY($1) AND status IN ('done', 'dead', 'failed')`. -/
def countFinal (jobIds : List JobId) (db : Db) : ℕ :=
  db.jobs.entries.countP fun x => x.1 ∈ jobIds && x.2.terminal

/-- `wait_for_completion` of `load.py`, with the tables that it counts before the deadline and
the last count: whether all jobs were final in time. -/
def waitForCount (jobIds : List JobId) : List Db → Option ℕ → Except PyError Bool
  -- the warning prints a count that no poll has made
  | [], none =>
      .error
        { name := "UnboundLocalError"
          message := "cannot access local variable 'done_count' where it is not associated " ++
            "with a value" }
  | [], some _ => .ok false
  | db :: dbs, _ =>
      let doneCount := countFinal jobIds db
      if jobIds.length = 0 then
        .error { name := "ZeroDivisionError", message := "division by zero" }
      else if doneCount = jobIds.length then .ok true
      else waitForCount jobIds dbs (some doneCount)

/-- `status = 'done' AND completed_at IS NOT NULL`. -/
def Job.sampled (r : Job) : Bool := r.status = .done && r.completedAt.isSome

/-- `sample_latencies`. -/
def sampleLatencies (jobIds : List JobId) (poll : Poll) : List ℚ :=
  (poll.scan.filter fun x => x.1 ∈ jobIds && x.2.sampled).filterMap fun x =>
    (completedRow x.2).latency

section

variable {cfg : Config} {t₀ : Time} {t : History Sys Event} {s s' : Sys} {j : JobId} {r : Job}
  {jobIds : List JobId}

/-- A wait in time ends with a table in which every job is final. -/
theorem final_of_wait {dbs : List Db} {last : Option ℕ}
    (inTime : waitForCount jobIds dbs last = .ok true) :
    ∃ db ∈ dbs, countFinal jobIds db = jobIds.length := by
  induction dbs generalizing last with
  | nil => cases last <;> cases inTime
  | cons db dbs ih =>
      unfold waitForCount at inTime
      dsimp only at inTime
      split at inTime
      · cases inTime
      · split at inTime
        · rename_i all
          exact ⟨db, List.mem_cons_self, all⟩
        · obtain ⟨db', member, all⟩ := ih inTime
          exact ⟨db', List.mem_cons_of_mem _ member, all⟩

/-- Each of the ids has a row that is done or dead. -/
theorem final_of_count (run : Runs cfg t₀ .empty t s) (distinct : jobIds.Nodup)
    (all : countFinal jobIds s.db = jobIds.length) (member : j ∈ jobIds) :
    ∃ r, s.db.jobs.row j = some r ∧ (r.status = .done ∨ r.status = .dead) := by
  rw [countFinal, SerialTable.countP_among distinct, List.countP_eq_length] at all
  obtain ⟨r, row, final⟩ := Option.any_eq_true _ _ |>.1 (all j member)
  exact ⟨r, row, final_of_terminal run row final⟩

theorem sampled_iff (run : Runs cfg t₀ .empty t s) (row : s.db.jobs.row j = some r) :
    r.sampled = true ↔ r.status = .done := by
  have completed := (consistent_of_run run j r row).completed_iff
  rw [← Option.isSome_iff_ne_none] at completed
  simp only [Job.sampled, Bool.and_eq_true, decide_eq_true_eq, completed, and_self]

/-- The sample has a latency for every row of the ids that is done. -/
theorem length_sample (run : Runs cfg t₀ .empty t s) (distinct : jobIds.Nodup) {poll : Poll}
    (at_ : poll.db = s.db) :
    (sampleLatencies jobIds poll).length =
      jobIds.countP fun j => (s.db.jobs.row j).any fun r => r.status = .done := by
  have sampled : (sampleLatencies jobIds poll).length =
      poll.scan.countP fun x => x.1 ∈ jobIds && x.2.sampled := by
    rw [sampleLatencies, List.length_filterMap_eq_countP, List.countP_filter]
    apply List.countP_congr
    intro x _
    simp only [completedRow, Option.isSome_map, Job.sampled, Bool.and_eq_true]
    tauto
  rw [sampled, poll.perm.countP_eq, at_, SerialTable.countP_among distinct]
  apply List.countP_congr
  intro j _
  cases row : s.db.jobs.row j with
  | none => rfl
  | some r => simp [sampled_iff run row]

/-- A latency is the time from the INSERT of a job to its completion. -/
theorem sample_nonneg (run : Runs cfg t₀ .empty t s) {poll : Poll} (at_ : poll.db = s.db) :
    ∀ lat ∈ sampleLatencies jobIds poll, 0 ≤ lat := by
  intro lat member
  obtain ⟨⟨j, r⟩, kept, latency⟩ := List.mem_filterMap.1 member
  have row : s.db.jobs.row j = some r := by
    rw [← at_]
    exact SerialTable.mem_entries.1 (poll.perm.mem_iff.1 (List.mem_of_mem_filter kept))
  obtain ⟨done, completed, rfl⟩ := Option.map_eq_some_iff.1 latency
  exact sub_nonneg.2 ((consistent_of_run run j r row).completed done completed).1

/-- A wait in time leaves every job done or dead. -/
theorem final_after_wait (run : Runs cfg t₀ .empty t s) {u : History Sys Event} {states : List Sys}
    (visits : Visits (step cfg) s u states s') (distinct : jobIds.Nodup) {last : Option ℕ}
    (inTime : waitForCount jobIds (states.map Sys.db) last = .ok true) (member : j ∈ jobIds) :
    ∃ r, s'.db.jobs.row j = some r ∧ (r.status = .done ∨ r.status = .dead) := by
  obtain ⟨db, counted, all⟩ := final_of_wait inTime
  obtain ⟨a, met, rfl⟩ := List.mem_map.1 counted
  obtain ⟨_, _, before, rest, -⟩ := visits.of_mem met
  obtain ⟨r, row, final⟩ := final_of_count (run.append before) distinct all member
  exact ⟨r, final_run (run.append before) row final rest, final⟩

/-- Of `noop` jobs whose results were stored the sample has every one. -/
theorem length_sample_noop (run : Runs cfg t₀ .empty t s) {py : HandlerPython}
    (serves : cfg.Serves (builtins py)) (follows : EachStep (Follows cfg (builtins py)) t)
    (distinct : jobIds.Nodup)
    (noop : ∀ j ∈ jobIds, EachStep (StoresJob j) t ∧
      ∃ body, enqueued cfg j t = some body ∧ body.type = "noop")
    (final : ∀ j ∈ jobIds, ∃ r, s.db.jobs.row j = some r ∧ (r.status = .done ∨ r.status = .dead))
    {poll : Poll} (at_ : poll.db = s.db) :
    (sampleLatencies jobIds poll).length = jobIds.length := by
  rw [length_sample run distinct at_]
  apply List.countP_eq_length.2
  intro j member
  obtain ⟨r, row, ended⟩ := final j member
  obtain ⟨stores, body, posted, type⟩ := noop j member
  have done := done_of_noop run serves follows stores posted type row ended
  simp [row, done]

end

/-- **The load test loses no job.**  When its wait does not time out, every latency that it
then samples is nonnegative, it samples one for each job that did not die, and none is missing
where the jobs are `noop` jobs whose results were stored.  A statement that raises has no
effect here: a job that the wait saw done stays done. -/
theorem load_test_samples_all (cfg : Config) (t₀ : Time) {t u : History Sys Event} {s s' : Sys}
    (run : Runs cfg t₀ .empty t s) {states : List Sys}
    (visits : Visits (step cfg) s u states s') (jobIds : List JobId) (distinct : jobIds.Nodup)
    (inTime : waitForCount jobIds (states.map Sys.db) none = .ok true) (poll : Poll)
    (at_ : poll.db = s'.db) :
    (∀ lat ∈ sampleLatencies jobIds poll, 0 ≤ lat) ∧
      ((sampleLatencies jobIds poll).length + jobIds.countP fun j =>
        (s'.db.jobs.row j).any fun r => r.status = .dead) = jobIds.length ∧
      ∀ py, cfg.Serves (builtins py) → EachStep (Follows cfg (builtins py)) (u ++ t) →
        (∀ j ∈ jobIds, EachStep (StoresJob j) (u ++ t) ∧
          ∃ body, enqueued cfg j (u ++ t) = some body ∧ body.type = "noop") →
        (sampleLatencies jobIds poll).length = jobIds.length := by
  have run' := run.append visits.run
  have final (j : JobId) (member : j ∈ jobIds) := final_after_wait run visits distinct inTime member
  refine ⟨sample_nonneg run' at_, ?_, fun py serves follows noop =>
    length_sample_noop run' serves follows distinct noop final at_⟩
  · rw [length_sample run' distinct at_, List.length_eq_countP_add_countP
      fun j => (s'.db.jobs.row j).any fun r => decide (r.status = .done)]
    refine congrArg₂ (· + ·) rfl (List.countP_congr fun j member => ?_)
    obtain ⟨r, row, done | dead⟩ := final j member
    · simp [row, done]
    · simp [row, dead]

/-- A wait that ends at its second count, when the only job is done. -/
theorem load_test_samples_all_one :
    ∃ t s, Runs demo 0 .empty t s ∧ waitForCount [1] [.empty, s.db] none = .ok true ∧
      (∀ lat ∈ sampleLatencies [1] (demoPoll s.db), 0 ≤ lat) ∧
      ((sampleLatencies [1] (demoPoll s.db)).length + List.countP (fun j =>
        (s.db.jobs.row j).any fun r => r.status = .dead) [1]) = 1 := by
  obtain ⟨t, s, run, after⟩ := demo_run
    ([.createJob demoJob, .start 0, .worker ⟨0, 0⟩ (.connect true)] ++
      demoClaim ⟨0, 0⟩ [1] (some 1) ++ demoDone ⟨0, 0⟩)
    (fun out => countFinal [1] out.2.db = 1) (by decide +kernel)
  have all : countFinal [1] s.db = 1 := decide_eq_true_iff.1 after
  have inTime : waitForCount [1] [.empty, s.db] none = .ok true := by
    have early : waitForCount [1] [.empty, s.db] none = waitForCount [1] [s.db] (some 0) := rfl
    rw [early, waitForCount, all]
    rfl
  have visits : Visits (step demo) (Sys.boot 0 .empty) _ [Sys.boot 0 .empty, s] s :=
    .next .nil (.next run (.rest .nil))
  obtain ⟨nonneg, sum, -⟩ := load_test_samples_all demo 0 .nil visits [1] (by decide) inTime
    (demoPoll s.db) rfl
  exact ⟨t, s, run, inTime, nonneg, sum⟩

end TaskQueue
