/-
# TaskQueue.Completion -- how the benchmarks wait for their jobs

`math_benchmark.py` polls the table for the rows of its jobs that are done, dead or failed and
not yet in `done_map`, until no job remains or the deadline has passed.  The workers go on
between two polls, and PostgreSQL returns the rows of a poll in an order of its own.

* `Poll` is one evaluation of the query, `waitForCompletion` the loop over them.
* `completed_of_polls`: the map is what one query at the last poll would have returned, and
  what every later one returns of the same jobs.
-/
import TaskQueue.Benchmark
import TaskQueue.Columns
import TaskQueue.Lib.Polling

namespace TaskQueue

set_option autoImplicit false

open Transition

/-- `status IN ('done', 'dead', 'failed')`. -/
def Job.terminal (r : Job) : Bool :=
  r.status = .done || r.status = .dead || r.status = .failed

/-- The columns of the query: `latency_s` is `completed_at - created_at`. -/
def completedRow (r : Job) : CompletedRow where
  status := r.status
  result := r.result
  latency := r.completedAt.map fun done => done - r.createdAt

/-- A query on the table `db`, which is scanned in an order of its own. -/
structure Poll where
  db : Db
  scan : List (JobId × Job)
  perm : scan.Perm db.jobs.entries

/-- The rows of the ids in `id_set - set(done_map)` that are final. -/
def Poll.rows (jobIds : List JobId) (poll : Poll) (doneMap : Dict JobId CompletedRow) :
    List (JobId × CompletedRow) :=
  (poll.scan.filter fun x => x.1 ∈ jobIds && x.1 ∉ doneMap && x.2.terminal).map fun x =>
    (x.1, completedRow x.2)

/-- `wait_for_completion`, with the polls that it makes before the deadline. -/
def waitForCompletion (jobIds : List JobId) :
    List Poll → Dict JobId CompletedRow → Except PyError (Dict JobId CompletedRow)
  | [], doneMap => .ok doneMap
  | poll :: polls, doneMap =>
      let doneMap := doneMap.setAll (poll.rows jobIds doneMap)
      let idSet := jobIds.dedup
      -- the percentage comes before the test
      if idSet.length = 0 then .error { name := "ZeroDivisionError", message := "division by zero" }
      else if idSet.length = doneMap.entries.length then .ok doneMap
      else waitForCompletion jobIds polls doneMap

/-- What a query without the ids that are done already has of a job. -/
def finalRow (db : Db) (j : JobId) : Option CompletedRow :=
  ((db.jobs.row j).filter Job.terminal).map completedRow

section

variable {cfg : Config} {t₀ : Time} {t : History Sys Event} {s s' : Sys} {j : JobId} {r : Job}
  {jobIds : List JobId} {c : CompletedRow} {db : Db}

theorem finalRow_eq_some :
    finalRow db j = some c ↔
      ∃ r, db.jobs.row j = some r ∧ r.terminal = true ∧ completedRow r = c := by
  simp only [finalRow, Option.map_eq_some_iff, Option.filter_eq_some_iff, and_assoc]

/-- A poll returns the final rows of the jobs that remain. -/
theorem poll_answers (jobIds : List JobId) (poll : Poll) (doneMap : Dict JobId CompletedRow) :
    Polling.Answers (finalRow poll.db) jobIds doneMap (poll.rows jobIds doneMap) := by
  intro k c
  simp only [Poll.rows, List.mem_map, List.mem_filter, Bool.and_eq_true, decide_eq_true_eq,
    finalRow_eq_some, poll.perm.mem_iff]
  constructor
  · rintro ⟨⟨k', r⟩, ⟨row, ⟨wanted, missing⟩, final⟩, same⟩
    cases same
    exact ⟨wanted, missing, r, SerialTable.mem_entries.1 row, final, rfl⟩
  · rintro ⟨wanted, missing, r, row, final, rfl⟩
    exact ⟨(k, r), ⟨SerialTable.mem_entries.2 row, ⟨wanted, missing⟩, final⟩, rfl⟩

/-- A map of wanted jobs that is as long as the set of them has them all. -/
theorem all_of_length {doneMap : Dict JobId CompletedRow} (wanted : ∀ k ∈ doneMap, k ∈ jobIds)
    (full : jobIds.dedup.length = doneMap.entries.length) : ∀ k ∈ jobIds, k ∈ doneMap := by
  intro k member
  have length : doneMap.keys.length = jobIds.dedup.length := by
    rw [full]
    exact List.length_map _
  have below : doneMap.keys ⊆ jobIds.dedup := fun k key =>
    List.mem_dedup.2 (wanted k (AList.mem_keys.2 key))
  have perm := (doneMap.keys_nodup.subperm below).perm_of_length_le (le_of_eq length.symm)
  exact AList.mem_keys.2 (perm.mem_iff.2 (List.mem_dedup.2 member))

/-- With jobs to wait for, the loop is that of `Polling`. -/
theorem waitForCompletion_eq (some_ : jobIds ≠ []) (polls : List Poll)
    (doneMap : Dict JobId CompletedRow) :
    waitForCompletion jobIds polls doneMap =
      .ok (Polling.gather (Poll.rows jobIds)
        (fun d => jobIds.dedup.length = d.entries.length) polls doneMap) := by
  have nonzero : jobIds.dedup.length ≠ 0 := by
    rw [Ne, List.length_eq_zero_iff]
    exact fun empty => some_ ((List.dedup_eq_nil jobIds).1 empty)
  induction polls generalizing doneMap with
  | nil => rfl
  | cons poll polls ih =>
      unfold waitForCompletion Polling.gather
      simp only [nonzero, if_false, decide_eq_true_eq]
      split
      · rfl
      · exact ih _

/-- A final row is done or dead. -/
theorem final_of_terminal (run : Runs cfg t₀ .empty t s) (row : s.db.jobs.row j = some r)
    (final : r.terminal = true) : r.status = .done ∨ r.status = .dead := by
  have never := (consistent_of_run run j r row).status
  simpa [Job.terminal, never] using final

/-- Once a query returns a row, every later one returns the same. -/
theorem finalRow_grows (run : Runs cfg t₀ .empty t s) {u : History Sys Event}
    (rest : Run (step cfg) s u s') : Polling.Grows (finalRow s.db) (finalRow s'.db) := by
  intro j c found
  obtain ⟨r, row, final, same⟩ := finalRow_eq_some.1 found
  have kept := final_run run row (final_of_terminal run row final) rest
  exact finalRow_eq_some.2 ⟨r, kept, final, same⟩

/-- Polls that are made along a run see more and more rows. -/
theorem polls_grow (run : Runs cfg t₀ .empty t s) {u : History Sys Event} {states : List Sys}
    (visits : Visits (step cfg) s u states s') {polls : List Poll}
    (made : polls.map Poll.db = states.map Sys.db) :
    polls.Pairwise fun p p' => Polling.Grows (finalRow p.db) (finalRow p'.db) := by
  have inOrder : (polls.map Poll.db).Pairwise fun d d' =>
      Polling.Grows (finalRow d) (finalRow d') := by
    rw [made, List.pairwise_map]
    refine List.Pairwise.imp_of_mem (fun {a b} first _ later => ?_) visits.pairwise
    obtain ⟨_, _, before, -, -⟩ := visits.of_mem first
    obtain ⟨_, rest⟩ := later
    exact finalRow_grows (run.append before) rest
  rw [List.pairwise_map] at inOrder
  exact inOrder

/-- The map after some polls, as one query at the last of them. -/
theorem lookup_of_polls (run : Runs cfg t₀ .empty t s) {u : History Sys Event} {states : List Sys}
    (visits : Visits (step cfg) s u states s') (some_ : jobIds ≠ []) {polls : List Poll}
    (made : polls.map Poll.db = states.map Sys.db) :
    ∃ doneMap, waitForCompletion jobIds polls ∅ = .ok doneMap ∧ ∀ j, doneMap.lookup j =
      Polling.among jobIds ((polls.getLast?.map fun p => finalRow p.db).getD fun _ => none) j := by
  refine ⟨_, waitForCompletion_eq some_ polls ∅, fun j => ?_⟩
  refine Polling.gather_lookup (fun _ => none) (fun p : Poll => finalRow p.db)
    (poll_answers jobIds) (fun d wanted full => ?_) (fun q _ k v found => by cases found)
    (polls_grow run visits made) (fun k => ?_) j
  · exact all_of_length wanted (decide_eq_true_iff.1 full)
  · simp [Polling.among]

/-- Whatever a poll has seen of a job is still there at the end. -/
theorem seen_of_polls (run : Runs cfg t₀ .empty t s) {u : History Sys Event} {states : List Sys}
    (visits : Visits (step cfg) s u states s') {polls : List Poll}
    (made : polls.map Poll.db = states.map Sys.db)
    (seen : ((polls.getLast?.map fun p => finalRow p.db).getD fun _ => none) j = some c) :
    finalRow s'.db j = some c := by
  cases last : polls.getLast? with
  | none =>
      rw [last] at seen
      cases seen
  | some p =>
      rw [last] at seen
      have member : p.db ∈ states.map Sys.db := by
        rw [← made]
        exact List.mem_map_of_mem (List.mem_of_getLast? last)
      obtain ⟨a, met, same⟩ := List.mem_map.1 member
      obtain ⟨_, _, before, rest, -⟩ := visits.of_mem met
      apply finalRow_grows (run.append before) rest j c
      rw [same]
      exact seen

end

/-- **What the benchmark waits for is what there is.**  However the polls fall into the run,
and in whatever order each returns its rows, `wait_for_completion` returns the rows that one
query without `done_map` would return at the last poll; each of them is done or dead, and is
what any later query returns of its job.  A statement that raises has no effect here: a
`'done'` UPDATE that takes effect and raises leaves a done row that is not final. -/
theorem completed_of_polls (cfg : Config) (t₀ : Time) {t u : History Sys Event} {s s' : Sys}
    (run : Runs cfg t₀ .empty t s) {states : List Sys}
    (visits : Visits (step cfg) s u states s') (jobIds : List JobId) (some_ : jobIds ≠ [])
    (polls : List Poll) (made : polls.map Poll.db = states.map Sys.db) :
    ∃ doneMap, waitForCompletion jobIds polls ∅ = .ok doneMap ∧
      (∀ j, doneMap.lookup j =
        if j ∈ jobIds then polls.getLast?.bind fun p => finalRow p.db j else none) ∧
      ∀ j c, doneMap.lookup j = some c →
        (c.status = .done ∨ c.status = .dead) ∧ finalRow s'.db j = some c := by
  obtain ⟨doneMap, returned, lookup⟩ := lookup_of_polls run visits some_ made
  refine ⟨doneMap, returned, fun j => ?_, fun j c found => ?_⟩
  · rw [lookup, Polling.among]
    cases polls.getLast? <;> rfl
  · rw [lookup, Polling.among, Option.ite_none_right_eq_some] at found
    have kept := seen_of_polls run visits made found.2
    obtain ⟨r, row, final, rfl⟩ := finalRow_eq_some.1 kept
    exact ⟨final_of_terminal (run.append visits.run) row final, kept⟩

/-- A poll that scans in key order. -/
def demoPoll (db : Db) : Poll where
  db := db
  scan := db.jobs.entries
  perm := List.Perm.refl _

/-- A poll of the empty table, and one when job 1 is done and job 2 is still pending. -/
theorem completed_of_polls_twice :
    ∃ t s doneMap, Runs demo 0 .empty t s ∧
      waitForCompletion [1, 2] [demoPoll .empty, demoPoll s.db] ∅ = .ok doneMap ∧
      (doneMap.lookup 1).isSome ∧ doneMap.lookup 2 = none := by
  obtain ⟨t, s, run, after⟩ := demo_run
    ([.createJob demoJob, .createJob demoJob, .start 0, .worker ⟨0, 0⟩ (.connect true)] ++
      demoClaim ⟨0, 0⟩ [1] (some 1) ++ demoDone ⟨0, 0⟩)
    (fun out => (finalRow out.2.db 1).isSome && (finalRow out.2.db 2).isNone)
    (by decide +kernel)
  simp only [Bool.and_eq_true, Option.isNone_iff_eq_none] at after
  have visits : Visits (step demo) (Sys.boot 0 .empty) _ [Sys.boot 0 .empty, s] s :=
    .next .nil (.next run (.rest .nil))
  obtain ⟨doneMap, returned, lookup, -⟩ := completed_of_polls demo 0 .nil visits [1, 2] (by decide)
    [demoPoll .empty, demoPoll s.db] rfl
  refine ⟨t, s, doneMap, run, returned, ?_, ?_⟩
  · rw [lookup, if_pos (by decide)]
    exact after.1
  · rw [lookup, if_pos (by decide)]
    exact after.2

end TaskQueue
