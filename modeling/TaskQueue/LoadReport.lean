/-
# TaskQueue.LoadReport -- what the throughput benchmark prints

After the wait `main` of `load.py` prints a table with the latencies that it has sampled: four
percentiles, which are cut points of `statistics.quantiles`, and the maximum.  One latency has
no cut points, and those of a few are estimates that may lie above the maximum.  `round` is what
the floats make of the outcome of an operation; equal latencies are enough for it to print a 75th
percentile that is above the 95th.

* `loadMain` is `main` from the end of `enqueue_phase` on, `printLoadReport` its table.
* `LatencyLines.Sound` is what the latency lines say of the sample in exact arithmetic, and
  `LatencyLines.Near` how far from that the printed ones are.
* `load_test_reports_iff`: when there is a table, and what is in it.
-/
import TaskQueue.Acceptance
import TaskQueue.Lib.Quantiles
import TaskQueue.LoadTest

namespace TaskQueue

set_option autoImplicit false

open Transition

/-- `_pct`: the cut points are numbered from 1. -/
def pct (round : ℚ → ℚ) (data : List ℚ) (p : ℕ) : Except PyError ℚ :=
  match Quantiles.quantiles round 100 data with
  | none =>
      .error { name := "StatisticsError", message := "must have at least two data points" }
  | some cuts =>
      match cuts[p - 1]? with
      | none => .error { name := "IndexError", message := "list index out of range" }
      | some cut => .ok cut

/-- The arguments of the command that the table shows. -/
structure LoadArgs where
  jobs : ℤ
  concurrency : ℤ
  workers : ℤ

/-- The lines of the table that are there if a latency was sampled. -/
structure LatencyLines where
  p50 : ℚ
  p75 : ℚ
  p95 : ℚ
  p99 : ℚ
  max : ℚ
  sampledJobs : ℕ
  targetMet : Bool

structure LoadReport where
  jobsEnqueued : ℤ
  concurrency : ℤ
  enqueueTime : ℚ
  enqueueRate : ℚ
  workerCount : ℤ
  pipelineTime : ℚ
  endToEndRate : ℚ
  latency : Option LatencyLines

def latencyLines (round : ℚ → ℚ) (endToEndRate : ℚ) (latencies : List ℚ) :
    Except PyError LatencyLines := do
  let p50 ← pct round latencies 50
  let p75 ← pct round latencies 75
  let p95 ← pct round latencies 95
  let p99 ← pct round latencies 99
  return {
    p50 := p50
    p75 := p75
    p95 := p95
    p99 := p99
    max := latencies.max?.getD 0
    sampledJobs := latencies.length
    targetMet := 500 ≤ endToEndRate }

/-- `_print_report` of `load.py`. -/
def printLoadReport (round : ℚ → ℚ) (args : LoadArgs) (enqueueElapsed pipelineElapsed : ℚ)
    (latencies : List ℚ) : Except PyError LoadReport :=
  let endToEndRate := if pipelineElapsed = 0 then 0 else round (latencies.length / pipelineElapsed)
  let report : LoadReport :=
    { jobsEnqueued := args.jobs
      concurrency := args.concurrency
      enqueueTime := enqueueElapsed
      enqueueRate := if enqueueElapsed = 0 then 0 else round (args.jobs / enqueueElapsed)
      workerCount := args.workers
      pipelineTime := pipelineElapsed
      endToEndRate := endToEndRate
      latency := none }
  if latencies = [] then .ok report
  else
    (latencyLines round endToEndRate latencies).map fun lines =>
      { report with latency := some lines }

/-- `[float(r["lat"]) for r in rows]`. -/
def floatLatencies (round : ℚ → ℚ) (jobIds : List JobId) (poll : Poll) : List ℚ :=
  (sampleLatencies jobIds poll).map round

/-- `main` of `load.py`, once `enqueue_phase` has returned; `counted` are the tables that the
wait counts, `poll` is the one that is sampled. -/
def loadMain (round : ℚ → ℚ) (args : LoadArgs) (jobIds : List JobId) (enqueueElapsed : ℚ)
    (counted : List Db) (pipelineElapsed : ℚ) (poll : Poll) : Except PyError LoadReport :=
  -- the rate is printed without the test that `_print_report` makes
  if enqueueElapsed = 0 then
    .error { name := "ZeroDivisionError", message := "float division by zero" }
  else do
    let _ ← waitForCount jobIds counted none
    printLoadReport round args enqueueElapsed pipelineElapsed (floatLatencies round jobIds poll)

/-- How many of the jobs are done. -/
def doneAmong (jobIds : List JobId) (db : Db) : ℕ :=
  jobIds.countP fun j => (db.jobs.row j).any fun r => r.status = .done

/-- The maximum of the sample, whose size is right. -/
structure LatencyLines.Counts (latencies : List ℚ) (lines : LatencyLines) : Prop where
  sampled : lines.sampledJobs = latencies.length
  greatest : lines.max ∈ latencies ∧ ∀ lat ∈ latencies, lat ≤ lines.max

/-- In exact arithmetic the percentiles are in order and the median is between 0 and the maximum;
another percentile is not above the maximum exactly if the sample is large enough, or has the
maximum twice. -/
structure LatencyLines.Sound (latencies : List ℚ) (lines : LatencyLines) : Prop where
  inOrder : lines.p50 ≤ lines.p75 ∧ lines.p75 ≤ lines.p95 ∧ lines.p95 ≤ lines.p99
  median : 0 ≤ lines.p50 ∧ lines.p50 ≤ lines.max
  p75_iff : lines.p75 ≤ lines.max ↔ 3 ≤ latencies.length ∨ 2 ≤ latencies.count lines.max
  p95_iff : lines.p95 ≤ lines.max ↔ 19 ≤ latencies.length ∨ 2 ≤ latencies.count lines.max
  p99_iff : lines.p99 ≤ lines.max ↔ 99 ≤ latencies.length ∨ 2 ≤ latencies.count lines.max

/-- The maximum is that of the other lines, and the percentiles are theirs up to `tolerance`. -/
structure LatencyLines.Near (tolerance : ℚ) (lines exact : LatencyLines) : Prop where
  max : lines.max = exact.max
  p50 : |lines.p50 - exact.p50| ≤ tolerance
  p75 : |lines.p75 - exact.p75| ≤ tolerance
  p95 : |lines.p95 - exact.p95| ≤ tolerance
  p99 : |lines.p99 - exact.p99| ≤ tolerance

section

variable {round : ℚ → ℚ} {data latencies : List ℚ} {p : ℕ} {lines : LatencyLines} {rate ε : ℚ}

/-- One latency has no percentiles, nor have none. -/
theorem pct_short (short : data.length < 2) (cut : ℚ) : pct round data p ≠ .ok cut := by
  rw [pct, Quantiles.quantiles, if_pos short]
  intro same
  cases same

theorem pct_eq (two : 2 ≤ data.length) (first : 1 ≤ p) (below : p < 100) :
    pct round data p = .ok (Quantiles.cut round 100 data.mergeSort p) := by
  have looked : ((Quantiles.quantiles round 100 data).bind fun cuts => cuts[p - 1]?) =
      some (Quantiles.cut round 100 data.mergeSort p) :=
    Quantiles.quantiles_get two first below
  obtain ⟨cuts, points, found⟩ := Option.bind_eq_some_iff.1 looked
  rw [pct, points]
  dsimp only
  rw [found]

/-- The last one of a sorted sample is the maximum. -/
theorem last_of_max (some_ : data ≠ []) :
    data.max? = some (data.mergeSort.getD (data.length - 1) 0) := by
  have sorted := List.pairwise_mergeSort' (· ≤ ·) data
  have length : data.mergeSort.length = data.length := List.length_mergeSort data
  have positive := List.length_pos_of_ne_nil some_
  refine List.max?_eq_some_iff.2 ⟨?_, fun x member => ?_⟩
  · rw [List.getD_eq_getElem _ _ (by omega)]
    exact (List.mergeSort_perm data _).mem_iff.1 (List.getElem_mem _)
  · obtain ⟨i, below, rfl⟩ := List.getElem_of_mem
      ((List.mergeSort_perm data fun x y => decide (x ≤ y)).mem_iff.2 member)
    rw [← List.getD_eq_getElem _ 0 below]
    exact Quantiles.getD_mono sorted (by omega) (by omega)

/-- The lines are there for two latencies or more. -/
theorem latencyLines_eq (two : 2 ≤ latencies.length) :
    latencyLines round rate latencies = .ok
      { p50 := Quantiles.cut round 100 latencies.mergeSort 50
        p75 := Quantiles.cut round 100 latencies.mergeSort 75
        p95 := Quantiles.cut round 100 latencies.mergeSort 95
        p99 := Quantiles.cut round 100 latencies.mergeSort 99
        max := latencies.max?.getD 0
        sampledJobs := latencies.length
        targetMet := 500 ≤ rate } := by
  simp only [latencyLines, pct_eq two (p := 50) (by decide) (by decide),
    pct_eq two (p := 75) (by decide) (by decide), pct_eq two (p := 95) (by decide) (by decide),
    pct_eq two (p := 99) (by decide) (by decide), ok_bind]
  rfl

theorem latencyLines_ok_iff (round : ℚ → ℚ) (rate : ℚ) :
    (∃ lines, latencyLines round rate latencies = .ok lines) ↔ 2 ≤ latencies.length := by
  constructor
  · rintro ⟨lines, printed⟩
    obtain ⟨p50, median, -⟩ := bind_ok.1 printed
    by_contra short
    exact pct_short (by omega) p50 median
  · intro two
    exact ⟨_, latencyLines_eq two⟩

/-- A percentile against the maximum. -/
theorem cut_le_max_iff (two : 2 ≤ latencies.length) {i : ℕ} :
    Quantiles.cut id 100 latencies.mergeSort i ≤ latencies.max?.getD 0 ↔
      i * (latencies.length + 1) ≤ 100 * latencies.length ∨
        2 ≤ latencies.count (latencies.max?.getD 0) := by
  have sorted := List.pairwise_mergeSort' (· ≤ ·) latencies
  have length : latencies.mergeSort.length = latencies.length := List.length_mergeSort latencies
  have last : latencies.max?.getD 0 =
      latencies.mergeSort.getD (latencies.mergeSort.length - 1) 0 := by
    rw [last_of_max (List.ne_nil_of_length_pos (by omega)), length]
    rfl
  rw [last, Quantiles.cut_le_last_iff (by decide) sorted (by omega),
    Quantiles.last_twice_iff sorted (by omega), length,
    (List.mergeSort_perm latencies _).count_eq]

theorem counts_latencyLines (printed : latencyLines round rate latencies = .ok lines) :
    lines.Counts latencies := by
  have two := (latencyLines_ok_iff round rate).1 ⟨lines, printed⟩
  have greatest := last_of_max (List.ne_nil_of_length_pos (by omega : 0 < latencies.length))
  rw [latencyLines_eq two] at printed
  cases printed
  refine ⟨rfl, ?_⟩
  dsimp only
  rw [greatest]
  exact List.max?_eq_some_iff.1 greatest

theorem sound_latencyLines (nonneg : ∀ lat ∈ latencies, 0 ≤ lat)
    (printed : latencyLines id rate latencies = .ok lines) : lines.Sound latencies := by
  have two := (latencyLines_ok_iff id rate).1 ⟨lines, printed⟩
  have sorted := List.pairwise_mergeSort' (· ≤ ·) latencies
  have length : latencies.mergeSort.length = latencies.length := List.length_mergeSort latencies
  have mono {i k : ℕ} (le : i ≤ k) := Quantiles.cut_mono (n := 100) (i := i) (k := k) (by decide)
    sorted (by omega) le
  rw [latencyLines_eq two] at printed
  cases printed
  refine ⟨⟨mono (by decide), mono (by decide), mono (by decide)⟩, ⟨?_, ?_⟩, ?_, ?_, ?_⟩
  · have first := Quantiles.first_le_cut (n := 100) (i := 50) (by decide) sorted (by omega)
      (by omega)
    refine le_trans ?_ first
    rw [List.getD_eq_getElem _ _ (by omega)]
    exact nonneg _ ((List.mergeSort_perm latencies _).mem_iff.1 (List.getElem_mem _))
  · exact (cut_le_max_iff two).2 (.inl (by omega))
  · exact (cut_le_max_iff two).trans (or_congr_left (by omega))
  · exact (cut_le_max_iff two).trans (or_congr_left (by omega))
  · exact (cut_le_max_iff two).trans (or_congr_left (by omega))

/-- The floats of times that are not negative are not. -/
theorem nonneg_of_rounds (rounds : Quantiles.Rounds ε round) (small : ε ≤ 1) {q : ℚ}
    (nonneg : 0 ≤ q) : 0 ≤ round q := by
  have near := (abs_le.1 (rounds q)).1
  rw [abs_of_nonneg nonneg] at near
  have less : ε * q ≤ q := mul_le_of_le_one_left nonneg small
  linarith

/-- The printed lines are near those of exact arithmetic, which are sound. -/
theorem near_latencyLines (rounds : Quantiles.Rounds ε round) (error : 0 ≤ ε)
    (nonneg : ∀ lat ∈ latencies, 0 ≤ lat)
    (printed : latencyLines round rate latencies = .ok lines) :
    ∃ exact : LatencyLines, latencyLines id rate latencies = .ok exact ∧
      exact.Sound latencies ∧ lines.Near (((1 + ε) ^ 3 - 1) * (3 * lines.max)) exact := by
  have two := (latencyLines_ok_iff round rate).1 ⟨lines, printed⟩
  obtain ⟨exact, printed'⟩ := (latencyLines_ok_iff id rate).2 two
  have greatest := (counts_latencyLines printed).greatest.2
  have largest (x : ℚ) (member : x ∈ latencies.mergeSort) : |x| ≤ lines.max := by
    have among := (List.mergeSort_perm latencies _).mem_iff.1 member
    rw [abs_of_nonneg (nonneg x among)]
    exact greatest x among
  have length : latencies.mergeSort.length = latencies.length := List.length_mergeSort latencies
  have near {i : ℕ} (below : i < 100) := Quantiles.cut_near rounds error (n := 100) (by decide)
    (by omega) below largest
  refine ⟨exact, printed', sound_latencyLines nonneg printed', ?_⟩
  rw [latencyLines_eq two] at printed printed'
  cases printed
  cases printed'
  exact ⟨rfl, near (by decide), near (by decide), near (by decide), near (by decide)⟩

/-- `wait_for_completion` raises without ids, and without a poll in time. -/
theorem waitForCount_ok_iff {jobIds : List JobId} {counted : List Db} :
    (∃ inTime, waitForCount jobIds counted none = .ok inTime) ↔ jobIds ≠ [] ∧ counted ≠ [] := by
  have later (counted : List Db) (count : ℕ) (some_ : jobIds ≠ []) :
      ∃ inTime, waitForCount jobIds counted (some count) = .ok inTime := by
    induction counted generalizing count with
    | nil => exact ⟨false, rfl⟩
    | cons db counted ih =>
        rw [waitForCount, if_neg (mt List.eq_nil_of_length_eq_zero some_)]
        split
        · exact ⟨true, rfl⟩
        · exact ih _
  cases counted with
  | nil =>
      constructor
      · rintro ⟨inTime, waited⟩
        cases waited
      · intro both
        exact absurd rfl both.2
  | cons db counted =>
      rw [and_iff_left (List.cons_ne_nil _ _), waitForCount]
      by_cases none_ : jobIds = []
      · rw [if_pos (List.length_eq_zero_iff.2 none_)]
        constructor
        · rintro ⟨inTime, waited⟩
          cases waited
        · exact fun some_ => absurd none_ some_
      · refine iff_of_true ?_ none_
        rw [if_neg (mt List.eq_nil_of_length_eq_zero none_)]
        split
        · exact ⟨true, rfl⟩
        · exact later counted _ none_

theorem printLoadReport_ok_iff {args : LoadArgs} {enqueueElapsed pipelineElapsed : ℚ} :
    (∃ report, printLoadReport round args enqueueElapsed pipelineElapsed latencies = .ok report) ↔
      latencies.length ≠ 1 := by
  unfold printLoadReport
  dsimp only
  split
  · rename_i none_
    apply iff_of_true ⟨_, rfl⟩
    rw [none_]
    decide
  · rename_i some_
    have positive := List.length_pos_of_ne_nil some_
    generalize rate :
      (if pipelineElapsed = 0 then 0 else round (latencies.length / pipelineElapsed)) = r
    have two : 2 ≤ latencies.length ↔ latencies.length ≠ 1 := by omega
    rw [← two, ← latencyLines_ok_iff round r]
    cases latencyLines round r latencies with
    | ok lines => exact iff_of_true ⟨_, rfl⟩ ⟨lines, rfl⟩
    | error e =>
        refine iff_of_false ?_ ?_
        · rintro ⟨report, printed⟩
          cases printed
        · rintro ⟨lines, printed⟩
          cases printed

/-- The table has latency lines if there is a latency. -/
theorem lines_of_printLoadReport {args : LoadArgs} {enqueueElapsed pipelineElapsed : ℚ}
    {report : LoadReport}
    (printed : printLoadReport round args enqueueElapsed pipelineElapsed latencies =
      .ok report) :
    (report.latency = none ↔ latencies = []) ∧
      ∀ lines ∈ report.latency,
        latencyLines round report.endToEndRate latencies = .ok lines := by
  unfold printLoadReport at printed
  dsimp only at printed
  split at printed
  · rename_i none_
    cases printed
    exact ⟨iff_of_true rfl none_, fun lines found => by cases found⟩
  · rename_i some_
    generalize rate :
      (if pipelineElapsed = 0 then 0 else round (latencies.length / pipelineElapsed)) = r at printed
    cases shown : latencyLines round r latencies with
    | error e =>
        rw [shown] at printed
        cases printed
    | ok lines =>
        rw [shown] at printed
        cases printed
        refine ⟨iff_of_false (fun none_ => by cases none_) some_, fun lines' found => ?_⟩
        cases found
        exact shown

theorem loadMain_ok_iff {args : LoadArgs} {jobIds : List JobId} {enqueueElapsed : ℚ}
    {counted : List Db} {pipelineElapsed : ℚ} {poll : Poll} {report : LoadReport}
    (took : enqueueElapsed ≠ 0) :
    loadMain round args jobIds enqueueElapsed counted pipelineElapsed poll = .ok report ↔
      (jobIds ≠ [] ∧ counted ≠ []) ∧
        printLoadReport round args enqueueElapsed pipelineElapsed
          (floatLatencies round jobIds poll) = .ok report := by
  rw [loadMain, if_neg took, bind_ok, ← waitForCount_ok_iff]
  exact exists_and_right

end

/-- **When the load test ends with a table.**  Once its jobs are enqueued it does exactly if there
are jobs, one poll is in time and the number of jobs that are done by the end is not one; of
`noop` jobs whose results were stored, and that were final in time, there must be two.  The
table then has the maximum of the done jobs' latencies; and if no operation on floats is wrong by
more than a part `ε` of its outcome, each percentile is within `3 ((1 + ε)³ - 1)` maxima of that
of exact arithmetic, which are in order, and of which those other than the median may be above
the maximum. -/
theorem load_test_reports_iff (cfg : Config) (round : ℚ → ℚ) (t₀ : Time)
    {t u : History Sys Event} {s s' : Sys} (run : Runs cfg t₀ .empty t s) {states : List Sys}
    (visits : Visits (step cfg) s u states s') (jobIds : List JobId) (distinct : jobIds.Nodup)
    (args : LoadArgs) (enqueueElapsed pipelineElapsed : ℚ) (took : enqueueElapsed ≠ 0)
    (poll : Poll) (at_ : poll.db = s'.db) :
    ((∃ report, loadMain round args jobIds enqueueElapsed (states.map Sys.db) pipelineElapsed
        poll = .ok report) ↔
      jobIds ≠ [] ∧ states ≠ [] ∧ doneAmong jobIds s'.db ≠ 1) ∧
      (∀ report, loadMain round args jobIds enqueueElapsed (states.map Sys.db) pipelineElapsed
          poll = .ok report →
        (report.latency = none ↔ doneAmong jobIds s'.db = 0) ∧
          ∀ lines ∈ report.latency, lines.sampledJobs = doneAmong jobIds s'.db ∧
            lines.Counts (floatLatencies round jobIds poll) ∧
            ∀ ε, 0 ≤ ε → ε ≤ 1 → Quantiles.Rounds ε round →
              ∃ exact : LatencyLines,
                latencyLines id report.endToEndRate (floatLatencies round jobIds poll) =
                  .ok exact ∧
                exact.Sound (floatLatencies round jobIds poll) ∧
                lines.Near (((1 + ε) ^ 3 - 1) * (3 * lines.max)) exact) ∧
      ∀ py, cfg.Serves (builtins py) → EachStep (Follows cfg (builtins py)) (u ++ t) →
        (∀ j ∈ jobIds, EachStep (StoresJob j) (u ++ t) ∧
          ∃ body, enqueued cfg j (u ++ t) = some body ∧ body.type = "noop") →
        waitForCount jobIds (states.map Sys.db) none = .ok true →
        ((∃ report, loadMain round args jobIds enqueueElapsed (states.map Sys.db) pipelineElapsed
          poll = .ok report) ↔ 2 ≤ jobIds.length) := by
  have run' := run.append visits.run
  have sampled : (floatLatencies round jobIds poll).length = doneAmong jobIds s'.db := by
    rw [floatLatencies, List.length_map]
    exact length_sample run' distinct at_
  have ends : (∃ report, loadMain round args jobIds enqueueElapsed (states.map Sys.db)
        pipelineElapsed poll = .ok report) ↔
      jobIds ≠ [] ∧ states ≠ [] ∧ doneAmong jobIds s'.db ≠ 1 := by
    simp only [loadMain_ok_iff took, exists_and_left, printLoadReport_ok_iff, sampled, and_assoc,
      ne_eq, List.map_eq_nil_iff]
  refine ⟨ends, fun report printed => ?_, fun py serves follows noop inTime => ?_⟩
  · obtain ⟨-, table⟩ := (loadMain_ok_iff took).1 printed
    obtain ⟨latency, printed⟩ := lines_of_printLoadReport table
    rw [← List.length_eq_zero_iff, sampled] at latency
    refine ⟨latency, fun lines found => ?_⟩
    have shown := printed lines found
    have counts := counts_latencyLines shown
    refine ⟨counts.sampled.trans sampled, counts, fun ε error small rounds => ?_⟩
    apply near_latencyLines rounds error (fun lat member => ?_) shown
    obtain ⟨q, sample, rfl⟩ := List.mem_map.1 member
    exact nonneg_of_rounds rounds small (sample_nonneg run' at_ q sample)
  · have final (j : JobId) (member : j ∈ jobIds) :=
      final_after_wait run visits distinct inTime member
    have all := length_sample_noop run' serves follows distinct noop final at_
    have waited := waitForCount_ok_iff.1 ⟨true, inTime⟩
    have states_ : states ≠ [] := fun none_ => waited.2 (congrArg (List.map Sys.db) none_)
    have positive := List.length_pos_of_ne_nil waited.1
    rw [ends, ← sampled, floatLatencies, List.length_map, all]
    constructor
    · rintro ⟨-, -, many⟩
      omega
    · intro two
      exact ⟨waited.1, states_, by omega⟩

/-- Two jobs, the second done 100 seconds later than the first, which nothing rounds: the 99th
percentile is above the maximum. -/
theorem load_test_reports_iff_two :
    ∃ t s report lines, Runs demo 0 .empty t s ∧
      loadMain id ⟨2, 1, 1⟩ [1, 2] 1 [s.db] 1 (demoPoll s.db) = .ok report ∧
      report.latency = some lines ∧ lines.sampledJobs = 2 ∧ lines.p50 ≤ lines.max ∧
      lines.max < lines.p99 := by
  obtain ⟨t, s, run, after⟩ := demo_run
    ([.createJob demoJob, .createJob demoJob, .start 0, .worker ⟨0, 0⟩ (.connect true)] ++
      demoClaim ⟨0, 0⟩ [1] (some 1) ++ demoDone ⟨0, 0⟩ ++ [.tick 100] ++
      demoClaim ⟨0, 0⟩ [2] (some 2) ++ demoDone ⟨0, 0⟩)
    (fun out => doneAmong [1, 2] out.2.db = 2 ∧
      floatLatencies id [1, 2] (demoPoll out.2.db) = [0, 100]) (by decide +kernel)
  have two : doneAmong [1, 2] s.db = 2 := (of_decide_eq_true after).1
  have latencies : floatLatencies id [1, 2] (demoPoll s.db) = [0, 100] :=
    (of_decide_eq_true after).2
  have visits : Visits (step demo) (Sys.boot 0 .empty) _ [s] s := .next run (.rest .nil)
  have several : doneAmong [1, 2] s.db ≠ 1 := by rw [two]; decide
  obtain ⟨ends, table, -⟩ := load_test_reports_iff demo id 0 .nil visits [1, 2] (by decide)
    ⟨2, 1, 1⟩ 1 1 one_ne_zero (demoPoll s.db) rfl
  obtain ⟨report, printed⟩ := ends.2 ⟨List.cons_ne_nil _ _, List.cons_ne_nil _ _, several⟩
  obtain ⟨latency, lines_⟩ := table report printed
  obtain ⟨lines, shown⟩ := Option.ne_none_iff_exists'.1 (mt latency.1 (by rw [two]; decide))
  obtain ⟨count, counts, near⟩ := lines_ lines shown
  obtain ⟨exact, -, sound, near⟩ := near 0 le_rfl zero_le_one fun q => by simp
  rw [latencies] at counts sound
  have max : lines.max = 100 := by
    have le := counts.greatest.2 100 (by decide)
    rcases List.mem_pair.1 counts.greatest.1 with zero | most
    · rw [zero] at le
      exact absurd le (by decide)
    · exact most
  have same {x y : ℚ} (close : |x - y| ≤ ((1 + 0) ^ 3 - 1) * (3 * lines.max)) : x = y := by
    simpa [sub_eq_zero] using close
  refine ⟨t, s, report, lines, run, printed, shown, count.trans two, ?_, ?_⟩
  · rw [same near.p50, near.max]
    exact sound.median.2
  · rw [same near.p99, ← not_le, near.max, sound.p99_iff, ← near.max, max]
    decide

end TaskQueue
