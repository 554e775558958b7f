/-
# TaskQueue.Benchmark -- the verdict of the correctness benchmark

`analyse` counts over two collections: the rows of `completed_map` that are not done, the
keys that it lacks, and among the enqueued jobs with a done row the results that are correct
and incorrect.  `print_report` announces its verdict from two of these counts, and a job that
died is in neither.

* `fate` is what becomes of a job: it timed out, failed, or its result is correct or not.
* `counts_of_analyse`: the counts are counts of fates; `analyse_total`: when there are any.
* `verdict_iff`: when the verdict is right.
-/
import TaskQueue.GroundTruth
import TaskQueue.Lib.Dict
import TaskQueue.Listing

namespace TaskQueue

set_option autoImplicit false

/-! ## `analyse` -/

/-- What the benchmark reads of the response to `POST /jobs`. -/
structure EnqueuedJob where
  id : JobId
  type : String
  payload : Option Json

/-- What it reads of a row of `completed_map`. -/
structure CompletedRow where
  status : Status
  result : Option Json
  latency : Option ℚ

/-- The row of a job, if that is done. -/
def doneRow (completed : Dict JobId CompletedRow) (job : EnqueuedJob) : Option CompletedRow :=
  (completed.lookup job.id).filter fun row => row.status = .done

/-- `job.get("payload") or {}`. -/
def EnqueuedJob.payloadOrEmpty (job : EnqueuedJob) : Json := (job.payload.getD .null).orEmpty

/-- `row.get("result") or {}`. -/
def CompletedRow.resultOrEmpty (row : CompletedRow) : Json := (row.result.getD .null).orEmpty

def verifyJob (py : PyRuntime) (fuel : ℕ) (job : EnqueuedJob) (row : CompletedRow) :
    Option Check :=
  verifyResult py fuel job.type job.payloadOrEmpty row.resultOrEmpty

/-- The counters of the correctness loop. -/
structure Counters where
  correct : ℕ
  incorrect : ℕ
  errorsDetail : List String

/-- One round of the correctness loop. -/
def countResult (py : PyRuntime) (fuel : ℕ) (completed : Dict JobId CompletedRow) (c : Counters)
    (job : EnqueuedJob) : Option Counters :=
  match doneRow completed job with
  | none => some c
  | some row =>
      (verifyJob py fuel job row).map fun out =>
        if out.1 then { c with correct := c.correct + 1 }
        else
          { c with
            incorrect := c.incorrect + 1
            errorsDetail :=
              if c.errorsDetail.length < 5 then
                c.errorsDetail ++
                  ["  job " ++ toString job.id ++ " (" ++ job.type ++ "): " ++ out.2]
              else c.errorsDetail }

/-- An entry of `by_type`. -/
structure TypeStats where
  total : ℕ
  done : ℕ
  correct : ℕ
  latencies : List ℚ

/-- One round of the loop over the types. -/
def countType (py : PyRuntime) (fuel : ℕ) (completed : Dict JobId CompletedRow)
    (byType : Dict String TypeStats) (job : EnqueuedJob) : Option (Dict String TypeStats) :=
  let stats :=
    (byType.lookup job.type).getD { total := 0, done := 0, correct := 0, latencies := [] }
  match doneRow completed job with
  | none => some (byType.set job.type { stats with total := stats.total + 1 })
  | some row =>
      (verifyJob py fuel job row).map fun out =>
        byType.set job.type
          { total := stats.total + 1
            done := stats.done + 1
            correct := if out.1 then stats.correct + 1 else stats.correct
            latencies := stats.latencies ++ row.latency.toList }

/-- `pct`. -/
def percentile (latencies : List ℚ) (p : ℕ) : ℚ :=
  (latencies[min (latencies.length * p / 100) (latencies.length - 1)]?).getD 0

/-- What `analyse` returns. -/
structure Analysis where
  total : ℕ
  completed : ℕ
  failed : ℕ
  timedOut : ℤ
  correct : ℕ
  incorrect : ℕ
  errorsDetail : List String
  latencies : List ℚ
  p50 : ℚ
  p75 : ℚ
  p95 : ℚ
  p99 : ℚ
  maxLat : ℚ
  byType : Dict String TypeStats

/-- `analyse`, with `fuel` rounds for every loop of `verify_result`. -/
def analyse (py : PyRuntime) (fuel : ℕ) (enqueuedJobs : List EnqueuedJob)
    (completedMap : Dict JobId CompletedRow) : Option Analysis := do
  let total := enqueuedJobs.length
  let completed := completedMap.entries.length
  let c ← enqueuedJobs.foldlM (countResult py fuel completedMap)
    { correct := 0, incorrect := 0, errorsDetail := [] }
  let latencies :=
    ((completedMap.values.filter fun r => r.status = .done).filterMap
      CompletedRow.latency).mergeSort
  let byType ← enqueuedJobs.foldlM (countType py fuel completedMap) ∅
  return {
    total := total
    completed := completed
    failed := completedMap.values.countP fun r => r.status ≠ .done
    timedOut := total - completed
    correct := c.correct
    incorrect := c.incorrect
    errorsDetail := c.errorsDetail
    latencies := latencies
    p50 := percentile latencies 50
    p75 := percentile latencies 75
    p95 := percentile latencies 95
    p99 := percentile latencies 99
    maxLat := latencies.getLast?.getD 0
    byType := byType }

/-! ## `print_report` -/

inductive Verdict where
  | allCorrect
  | failures
  deriving DecidableEq, Repr

def Verdict.text : Verdict → String
  | .allCorrect => "✓ ALL RESULTS MATHEMATICALLY CORRECT"
  | .failures => "✗ CORRECTNESS FAILURES DETECTED"

/-- A line of the table of types; latencies in milliseconds. -/
structure TypeLine where
  type : String
  correct : ℕ
  done : ℕ
  p50 : ℚ
  p99 : ℚ

/-- What `print_report` prints; latencies in milliseconds. -/
structure Report where
  submitted : ℕ
  done : ℤ
  failedOrTimedOut : ℤ
  correct : ℕ
  incorrect : ℕ
  accuracy : ℚ
  throughput : ℚ
  p50 : ℚ
  p75 : ℚ
  p95 : ℚ
  p99 : ℚ
  maxLat : ℚ
  types : List TypeLine
  wrongResults : List String
  verdict : Verdict

def typeLine (type : String) (stats : TypeStats) : TypeLine :=
  let lats := stats.latencies.mergeSort
  { type := type
    correct := stats.correct
    done := stats.done
    p50 := (lats[lats.length / 2]?).getD 0 * 1000
    p99 := (lats[lats.length * 99 / 100]?).getD 0 * 1000 }

/-- `print_report`. -/
def printReport (r : Analysis) (elapsedTotal : ℚ) : Report :=
  let done : ℤ := r.completed - r.failed
  { submitted := r.total
    done := done
    failedOrTimedOut := r.failed + r.timedOut
    correct := r.correct
    incorrect := r.incorrect
    accuracy := if 0 < done then 100 * r.correct / done else 0
    throughput := if 0 < elapsedTotal then done / elapsedTotal else 0
    p50 := r.p50 * 1000
    p75 := r.p75 * 1000
    p95 := r.p95 * 1000
    p99 := r.p99 * 1000
    maxLat := r.maxLat * 1000
    types := r.byType.entries.map fun x => typeLine x.1 x.2
    wrongResults := r.errorsDetail
    -- `failed` is not asked
    verdict := if r.incorrect = 0 ∧ r.timedOut = 0 then .allCorrect else .failures }

/-! ## The fate of a job -/

/-- What becomes of an enqueued job, as the benchmark sees it. -/
inductive Fate where
  | timedOut
  | failed
  | correct
  | incorrect
  | unending
  deriving DecidableEq

def fate (py : PyRuntime) (fuel : ℕ) (completed : Dict JobId CompletedRow) (job : EnqueuedJob) :
    Fate :=
  match completed.lookup job.id with
  | none => .timedOut
  | some row =>
      if row.status = .done then
        match verifyJob py fuel job row with
        | some (true, _) => .correct
        | some (false, _) => .incorrect
        | none => .unending
      else .failed

/-- If it is a `collatz` job, its sequence gets to 1. -/
def EnqueuedJob.Ends (py : PyRuntime) (job : EnqueuedJob) : Prop :=
  VerificationEnds py job.type job.payloadOrEmpty

/-- One fate of a job, by its row and what the verification says of it. -/
inductive Fares (py : PyRuntime) (fuel : ℕ) (completed : Dict JobId CompletedRow)
    (job : EnqueuedJob) : Fate → Prop
  | timedOut (gone : completed.lookup job.id = none) : Fares py fuel completed job .timedOut
  | failed {row : CompletedRow} (found : completed.lookup job.id = some row)
      (undone : row.status ≠ .done) : Fares py fuel completed job .failed
  | correct {row : CompletedRow} {reason : String} (found : completed.lookup job.id = some row)
      (done : row.status = .done) (accepts : verifyJob py fuel job row = some (true, reason)) :
      Fares py fuel completed job .correct
  | incorrect {row : CompletedRow} {reason : String} (found : completed.lookup job.id = some row)
      (done : row.status = .done) (rejects : verifyJob py fuel job row = some (false, reason)) :
      Fares py fuel completed job .incorrect
  | unending {row : CompletedRow} (found : completed.lookup job.id = some row)
      (done : row.status = .done) (runs : verifyJob py fuel job row = none) :
      Fares py fuel completed job .unending

section

variable {py : PyRuntime} {fuel more : ℕ} {completed : Dict JobId CompletedRow}
  {jobs : List EnqueuedJob} {job : EnqueuedJob} {row : CompletedRow} {check : Check}

theorem fares (py : PyRuntime) (fuel : ℕ) (completed : Dict JobId CompletedRow)
    (job : EnqueuedJob) : Fares py fuel completed job (fate py fuel completed job) := by
  unfold fate
  split
  · rename_i gone
    exact .timedOut gone
  · rename_i row found
    split
    · rename_i done
      split
      · rename_i accepts
        exact .correct found done accepts
      · rename_i rejects
        exact .incorrect found done rejects
      · rename_i runs
        exact .unending found done runs
    · rename_i undone
      exact .failed found undone

theorem fate_iff {f : Fate} :
    fate py fuel completed job = f ↔ Fares py fuel completed job f := by
  constructor
  · rintro rfl
    exact fares py fuel completed job
  · intro fared
    cases fared with
    | timedOut gone => simp [fate, gone]
    | failed found undone => simp [fate, found, undone]
    | correct found done accepts => simp [fate, found, done, accepts]
    | incorrect found done rejects => simp [fate, found, done, rejects]
    | unending found done runs => simp [fate, found, done, runs]

theorem fate_timedOut_iff :
    fate py fuel completed job = .timedOut ↔ completed.lookup job.id = none := by
  rw [fate_iff]
  constructor
  · intro fared
    cases fared with
    | timedOut gone => exact gone
  · exact .timedOut

theorem fate_failed_iff :
    fate py fuel completed job = .failed ↔
      ∃ row, completed.lookup job.id = some row ∧ row.status ≠ .done := by
  rw [fate_iff]
  constructor
  · intro fared
    cases fared with
    | failed found undone => exact ⟨_, found, undone⟩
  · rintro ⟨row, found, undone⟩
    exact .failed found undone

theorem doneRow_eq_some :
    doneRow completed job = some row ↔
      completed.lookup job.id = some row ∧ row.status = .done := by
  rw [doneRow, Option.filter_eq_some_iff, decide_eq_true_iff]

theorem doneRow_eq_none (undone : ∀ row, completed.lookup job.id = some row → row.status ≠ .done) :
    doneRow completed job = none := by
  rw [Option.eq_none_iff_forall_ne_some]
  intro row done
  obtain ⟨found, finished⟩ := doneRow_eq_some.1 done
  exact undone row found finished

theorem fate_ends_iff :
    fate py fuel completed job ≠ .unending ↔
      ∀ row ∈ doneRow completed job, ∃ check, verifyJob py fuel job row = some check := by
  constructor
  · intro ends row member
    obtain ⟨found, done⟩ := doneRow_eq_some.1 member
    cases checked : verifyJob py fuel job row with
    | none => exact absurd (fate_iff.2 (.unending found done checked)) ends
    | some check => exact ⟨check, rfl⟩
  · intro checks runs
    cases fate_iff.1 runs with
    | unending found done hangs =>
        obtain ⟨check, checked⟩ := checks _ (doneRow_eq_some.2 ⟨found, done⟩)
        cases hangs.symm.trans checked

theorem countResult_total (ends : fate py fuel completed job ≠ .unending) (c : Counters) :
    ∃ c', countResult py fuel completed c job = some c' := by
  rw [fate_ends_iff] at ends
  cases done : doneRow completed job with
  | none => exact ⟨c, by rw [countResult, done]⟩
  | some row =>
      obtain ⟨check, checked⟩ := ends row done
      simp only [countResult, done, checked, Option.map_some]
      exact ⟨_, rfl⟩

theorem countType_total (ends : fate py fuel completed job ≠ .unending)
    (byType : Dict String TypeStats) :
    ∃ byType', countType py fuel completed byType job = some byType' := by
  rw [fate_ends_iff] at ends
  cases done : doneRow completed job with
  | none =>
      simp only [countType, done]
      exact ⟨_, rfl⟩
  | some row =>
      obtain ⟨check, checked⟩ := ends row done
      simp only [countType, done, checked, Option.map_some]
      exact ⟨_, rfl⟩

/-- A round of the correctness loop counts a job by its fate. -/
theorem countResult_fate {c c' : Counters} {f : Fate} (fared : Fares py fuel completed job f)
    (counts : countResult py fuel completed c job = some c') :
    f ≠ .unending ∧ c'.correct = c.correct + (if f = .correct then 1 else 0) ∧
      c'.incorrect = c.incorrect + (if f = .incorrect then 1 else 0) := by
  have skips (none_ : doneRow completed job = none) : c' = c := by
    rw [countResult, none_] at counts
    exact (Option.some.inj counts).symm
  cases fared with
  | timedOut gone =>
      rw [skips (doneRow_eq_none fun row found => by simp [gone] at found)]
      simp
  | @failed row found undone =>
      have none_ : doneRow completed job = none := doneRow_eq_none fun row' found' => by
        cases found.symm.trans found'
        exact undone
      rw [skips none_]
      simp
  | correct found done accepts =>
      simp only [countResult, doneRow_eq_some.2 ⟨found, done⟩, accepts, Option.map_some,
        Option.some.injEq] at counts
      subst counts
      simp
  | incorrect found done rejects =>
      simp only [countResult, doneRow_eq_some.2 ⟨found, done⟩, rejects, Option.map_some,
        Option.some.injEq] at counts
      subst counts
      simp
  | unending found done runs =>
      simp [countResult, doneRow_eq_some.2 ⟨found, done⟩, runs] at counts

/-- The correctness loop counts the jobs by their fates. -/
theorem counts_of_fold {c c' : Counters}
    (counts : jobs.foldlM (countResult py fuel completed) c = some c') :
    (∀ job ∈ jobs, fate py fuel completed job ≠ .unending) ∧
      c'.correct = c.correct + jobs.countP (fun job => fate py fuel completed job = .correct) ∧
      c'.incorrect =
        c.incorrect + jobs.countP (fun job => fate py fuel completed job = .incorrect) := by
  induction jobs generalizing c with
  | nil =>
      cases counts
      exact ⟨fun job member => (by cases member), rfl, rfl⟩
  | cons job jobs ih =>
      rw [List.foldlM_cons] at counts
      obtain ⟨c₁, round, rest⟩ := Option.bind_eq_some_iff.1 counts
      obtain ⟨ends, correct₁, incorrect₁⟩ := countResult_fate (fares py fuel completed job) round
      obtain ⟨ends', correct', incorrect'⟩ := ih rest
      refine ⟨List.forall_mem_cons.2 ⟨ends, ends'⟩, ?_, ?_⟩
      · rw [correct', correct₁, List.countP_cons]
        simp only [decide_eq_true_eq]
        omega
      · rw [incorrect', incorrect₁, List.countP_cons]
        simp only [decide_eq_true_eq]
        omega

/-- How many jobs have a fate. -/
def fated (py : PyRuntime) (fuel : ℕ) (completed : Dict JobId CompletedRow)
    (jobs : List EnqueuedJob) (f : Fate) : ℕ :=
  jobs.countP fun job => fate py fuel completed job = f

/-- Every job whose verification ends has one of four fates. -/
theorem length_eq_fated (ended : ∀ job ∈ jobs, fate py fuel completed job ≠ .unending) :
    fated py fuel completed jobs .correct + fated py fuel completed jobs .incorrect +
      fated py fuel completed jobs .failed + fated py fuel completed jobs .timedOut =
        jobs.length := by
  induction jobs with
  | nil => rfl
  | cons job jobs ih =>
      obtain ⟨ends, ended'⟩ := List.forall_mem_cons.1 ended
      have before := ih ended'
      simp only [fated, List.countP_cons, List.length_cons] at before ⊢
      generalize fate py fuel completed job = f at ends
      cases f <;> simp at ends ⊢ <;> omega

/-- The rows of the map are rows of jobs. -/
theorem countP_values (distinct : (jobs.map EnqueuedJob.id).Nodup)
    (among : ∀ id ∈ completed, id ∈ jobs.map EnqueuedJob.id) (p : CompletedRow → Bool) :
    completed.values.countP p = jobs.countP fun job => (completed.lookup job.id).any p := by
  rw [← Dict.countP_lookup distinct among p, List.countP_map]
  rfl

theorem countP_undone (distinct : (jobs.map EnqueuedJob.id).Nodup)
    (among : ∀ id ∈ completed, id ∈ jobs.map EnqueuedJob.id) :
    completed.values.countP (fun r => r.status ≠ .done) =
      fated py fuel completed jobs .failed := by
  rw [countP_values distinct among]
  refine List.countP_congr fun job _ => ?_
  rw [decide_eq_true_iff, fate_failed_iff, Option.any_eq_true]
  simp only [decide_eq_true_eq]

theorem fated_eq_zero {f : Fate} :
    fated py fuel completed jobs f = 0 ↔ ∀ job ∈ jobs, fate py fuel completed job ≠ f := by
  rw [fated, List.countP_eq_zero]
  simp only [decide_eq_true_eq, ne_eq]

/-- The counts of `analyse` are counts of fates. -/
structure Counted (py : PyRuntime) (fuel : ℕ) (jobs : List EnqueuedJob)
    (completed : Dict JobId CompletedRow) (r : Analysis) : Prop where
  ended : ∀ job ∈ jobs, fate py fuel completed job ≠ .unending
  total : r.total = jobs.length
  timedOut : r.timedOut = fated py fuel completed jobs .timedOut
  failed : r.failed = fated py fuel completed jobs .failed
  correct : r.correct = fated py fuel completed jobs .correct
  incorrect : r.incorrect = fated py fuel completed jobs .incorrect

theorem counts_of_analyse (distinct : (jobs.map EnqueuedJob.id).Nodup)
    (among : ∀ id ∈ completed, id ∈ jobs.map EnqueuedJob.id) {r : Analysis}
    (returns : analyse py fuel jobs completed = some r) : Counted py fuel jobs completed r := by
  simp only [analyse, Option.bind_eq_bind, Option.bind_eq_some_iff, Option.pure_def,
    Option.some.injEq] at returns
  obtain ⟨c, counts, byType, -, rfl⟩ := returns
  obtain ⟨ended, correct, incorrect⟩ := counts_of_fold counts
  rw [Nat.zero_add] at correct incorrect
  -- the map has a row for every job that did not time out
  have there : jobs.length = fated py fuel completed jobs .timedOut + completed.entries.length := by
    have rows := countP_values distinct among fun _ => true
    rw [List.countP_true, Dict.length_values] at rows
    rw [rows, List.length_eq_countP_add_countP
      fun job => decide (fate py fuel completed job = .timedOut)]
    refine congrArg₂ (· + ·) rfl (List.countP_congr fun job _ => ?_)
    rw [decide_eq_true_iff, decide_eq_true_iff, fate_timedOut_iff]
    cases completed.lookup job.id <;> simp
  refine ⟨ended, rfl, ?_, countP_undone distinct among, correct, incorrect⟩
  show (jobs.length : ℤ) - completed.entries.length = _
  omega

/-- `analyse` returns if every verification ends. -/
theorem analyse_total (ends : ∀ job ∈ jobs, ∀ row ∈ doneRow completed job, job.Ends py) :
    ∃ fuel r, analyse py fuel jobs completed = some r := by
  obtain ⟨fuel, enough⟩ : ∃ fuel, ∀ job ∈ jobs, fate py fuel completed job ≠ .unending := by
    refine Loop.enough (fun le ended => ?_) fun job member => ?_
    · rw [fate_ends_iff] at ended ⊢
      intro row done
      obtain ⟨check, checked⟩ := ended row done
      exact ⟨check, verifyResult_mono le checked⟩
    · cases done : doneRow completed job with
      | none => exact ⟨0, fate_ends_iff.2 fun row done' => by cases done.symm.trans done'⟩
      | some row =>
          obtain ⟨fuel, check, checked⟩ := verifyResult_ends_iff.2 (ends job member row done)
          refine ⟨fuel, fate_ends_iff.2 fun row' done' => ?_⟩
          cases done.symm.trans done'
          exact ⟨check, checked⟩
  obtain ⟨c, counts⟩ := Loop.foldlM_total
    (fun job member => countResult_total (enough job member))
    { correct := 0, incorrect := 0, errorsDetail := [] }
  obtain ⟨byType, types⟩ := Loop.foldlM_total
    (fun job member => countType_total (enough job member)) ∅
  refine ⟨fuel, ?_⟩
  simp only [analyse, counts, types, Option.bind_eq_bind, Option.bind_some]
  exact ⟨_, rfl⟩

/-! ## The verdict -/

/-- `verify_result` accepts the result of a row. -/
def Accepts (py : PyRuntime) (job : EnqueuedJob) (row : CompletedRow) : Prop :=
  ∃ fuel reason, verifyJob py fuel job row = some (true, reason)

/-- `verify_result` rejects the result of a row. -/
def Rejects (py : PyRuntime) (job : EnqueuedJob) (row : CompletedRow) : Prop :=
  ∃ fuel reason, verifyJob py fuel job row = some (false, reason)

/-- Every enqueued job is in the map, done, and its result accepted. -/
def AllVerified (py : PyRuntime) (jobs : List EnqueuedJob)
    (completed : Dict JobId CompletedRow) : Prop :=
  ∀ job ∈ jobs, ∃ row, completed.lookup job.id = some row ∧ row.status = .done ∧
    Accepts py job row

theorem verifyJob_unique {check' : Check} (first : verifyJob py fuel job row = some check)
    (second : verifyJob py more job row = some check') : check = check' := by
  have either := verifyResult_mono (Nat.le_max_left fuel more) first
  rw [verifyResult_mono (Nat.le_max_right fuel more) second] at either
  exact (Option.some.inj either).symm

theorem fate_correct_iff (ends : fate py fuel completed job ≠ .unending) :
    fate py fuel completed job = .correct ↔
      ∃ row, completed.lookup job.id = some row ∧ row.status = .done ∧ Accepts py job row := by
  constructor
  · intro correct
    cases fate_iff.1 correct with
    | correct found done accepts => exact ⟨_, found, done, fuel, _, accepts⟩
  · rintro ⟨row, found, done, more, reason, accepts⟩
    obtain ⟨check, checked⟩ := fate_ends_iff.1 ends row (doneRow_eq_some.2 ⟨found, done⟩)
    obtain rfl := verifyJob_unique checked accepts
    exact fate_iff.2 (.correct found done checked)

theorem fate_incorrect_iff (ends : fate py fuel completed job ≠ .unending) :
    fate py fuel completed job = .incorrect ↔
      ∃ row ∈ doneRow completed job, Rejects py job row := by
  constructor
  · intro incorrect
    cases fate_iff.1 incorrect with
    | incorrect found done rejects =>
        exact ⟨_, doneRow_eq_some.2 ⟨found, done⟩, fuel, _, rejects⟩
  · rintro ⟨row, member, more, reason, rejects⟩
    obtain ⟨found, done⟩ := doneRow_eq_some.1 member
    obtain ⟨check, checked⟩ := fate_ends_iff.1 ends row member
    obtain rfl := verifyJob_unique checked rejects
    exact fate_iff.2 (.incorrect found done checked)

/-- The verdict looks at two of the counts. -/
theorem announces_iff {r : Analysis} (counted : Counted py fuel jobs completed r) (elapsed : ℚ) :
    (printReport r elapsed).verdict = .allCorrect ↔
      ∀ job ∈ jobs, fate py fuel completed job ≠ .incorrect ∧
        fate py fuel completed job ≠ .timedOut := by
  have verdict : (printReport r elapsed).verdict = .allCorrect ↔
      r.incorrect = 0 ∧ r.timedOut = 0 := by
    simp only [printReport]
    split <;> simp_all
  rw [verdict, counted.incorrect, counted.timedOut, Int.natCast_eq_zero, fated_eq_zero,
    fated_eq_zero]
  exact forall₂_and.symm

theorem allVerified_iff (ended : ∀ job ∈ jobs, fate py fuel completed job ≠ .unending) :
    AllVerified py jobs completed ↔ ∀ job ∈ jobs, fate py fuel completed job = .correct :=
  forall₂_congr fun job member => (fate_correct_iff (ended job member)).symm

theorem rows_done_iff (distinct : (jobs.map EnqueuedJob.id).Nodup)
    (among : ∀ id ∈ completed, id ∈ jobs.map EnqueuedJob.id) :
    (∀ row ∈ completed.values, row.status = .done) ↔
      ∀ job ∈ jobs, fate py fuel completed job ≠ .failed := by
  rw [← fated_eq_zero, ← countP_undone distinct among, List.countP_eq_zero]
  simp

/-- The verdict is right unless it passes over a job that failed. -/
theorem verdict_iff {r : Analysis} (distinct : (jobs.map EnqueuedJob.id).Nodup)
    (among : ∀ id ∈ completed, id ∈ jobs.map EnqueuedJob.id)
    (counted : Counted py fuel jobs completed r) (elapsed : ℚ) :
    ((printReport r elapsed).verdict = .allCorrect ↔ AllVerified py jobs completed) ↔
      (∀ row ∈ completed.values, row.status = .done) ∨
        (∃ job ∈ jobs, completed.lookup job.id = none) ∨
          ∃ job ∈ jobs, ∃ row ∈ doneRow completed job, Rejects py job row := by
  have ended := counted.ended
  have missing : (∃ job ∈ jobs, completed.lookup job.id = none) ↔
      ∃ job ∈ jobs, fate py fuel completed job = .timedOut := by
    simp only [fate_timedOut_iff]
  have rejected : (∃ job ∈ jobs, ∃ row ∈ doneRow completed job, Rejects py job row) ↔
      ∃ job ∈ jobs, fate py fuel completed job = .incorrect := by
    refine exists_congr fun job => and_congr_right fun member => ?_
    exact (fate_incorrect_iff (ended job member)).symm
  rw [announces_iff counted, allVerified_iff ended, rows_done_iff distinct among, missing, rejected]
  constructor
  · intro agree
    by_contra neither
    push Not at neither
    obtain ⟨⟨job, member, failed⟩, noneMissing, noneRejected⟩ := neither
    have correct := agree.1 fun job member => ⟨noneRejected job member, noneMissing job member⟩
    cases failed.symm.trans (correct job member)
  · rintro (undone | ⟨job, member, timedOut⟩ | ⟨job, member, incorrect⟩)
    · refine forall₂_congr fun job member => ?_
      have failed := undone job member
      have ends := ended job member
      generalize fate py fuel completed job = f at failed ends
      cases f <;> simp_all
    · refine iff_of_false (fun all => (all job member).2 timedOut) fun all => ?_
      cases timedOut.symm.trans (all job member)
    · refine iff_of_false (fun all => (all job member).1 incorrect) fun all => ?_
      cases incorrect.symm.trans (all job member)

end

/-- **The benchmark's verdict.**  For distinct jobs and a map whose keys are among theirs,
`analyse` returns, its counts add up, and `print_report` announces that all results are
correct exactly if every job is done and verified (all of `total` are `correct`), if and only
if first, the 3n+1 sequence of every `collatz` job that is done gets to 1, and second, no row
is dead or failed, or else some job has no row, or some result is rejected. -/
theorem benchmark_verdict_iff (py : PyRuntime) (jobs : List EnqueuedJob)
    (completed : Dict JobId CompletedRow) (elapsed : ℚ)
    (distinct : (jobs.map EnqueuedJob.id).Nodup)
    (among : ∀ id ∈ completed, id ∈ jobs.map EnqueuedJob.id) :
    (∃ fuel r, analyse py fuel jobs completed = some r ∧
        (r.correct + r.incorrect + r.failed : ℤ) + r.timedOut = r.total ∧
        ((printReport r elapsed).verdict = .allCorrect ↔ AllVerified py jobs completed) ∧
        (AllVerified py jobs completed ↔ r.correct = r.total)) ↔
      (∀ job ∈ jobs, ∀ row ∈ doneRow completed job, job.Ends py) ∧
        ((∀ row ∈ completed.values, row.status = .done) ∨
          (∃ job ∈ jobs, completed.lookup job.id = none) ∨
            ∃ job ∈ jobs, ∃ row ∈ doneRow completed job, Rejects py job row) := by
  constructor
  · rintro ⟨fuel, r, returns, -, announces, -⟩
    have counted := counts_of_analyse distinct among returns
    refine ⟨fun job member row done => ?_, (verdict_iff distinct among counted elapsed).1 announces⟩
    obtain ⟨check, checked⟩ := fate_ends_iff.1 (counted.ended job member) row done
    exact verifyResult_ends_iff.1 ⟨fuel, check, checked⟩
  · rintro ⟨ends, right⟩
    obtain ⟨fuel, r, returns⟩ := analyse_total ends
    have counted := counts_of_analyse distinct among returns
    refine ⟨fuel, r, returns, ?_, (verdict_iff distinct among counted elapsed).2 right, ?_⟩
    · have sum := length_eq_fated counted.ended
      rw [counted.correct, counted.incorrect, counted.failed, counted.timedOut, counted.total]
      exact_mod_cast sum
    · rw [allVerified_iff counted.ended, counted.correct, counted.total, fated,
        List.countP_eq_length]
      simp only [decide_eq_true_eq]

/-- The texts of the values that the runs on fixed inputs print. -/
def demoStr : Json → Except PyError String
  | .int n => .ok (toString n)
  | .bool b => .ok (if b then "True" else "False")
  | _ => .ok "None"

/-- For runs that do not hash. -/
def demoPython : PyRuntime where
  sha256 data := data
  str := demoStr
  formatError _ :=
    { name := "TypeError", message := "not all arguments converted during string formatting" }

def demoPrime : EnqueuedJob where
  id := 1
  type := "is_prime"
  payload := some (.obj [("n", .int 7)])

/-- The jobs of the runs on fixed inputs. -/
def demoEnqueued : List EnqueuedJob :=
  [demoPrime,
    { id := 2, type := "collatz", payload := some (.obj [("n", .int 6)]) },
    { id := 3, type := "is_prime", payload := some (.obj [("n", .int 9)]) }]

/-- Two jobs are done. -/
def demoCompleted : Dict JobId CompletedRow :=
  ((∅ : Dict JobId CompletedRow).set 1
      { status := .done
        result := some (.obj [("is_prime", .bool true), ("divisors_checked", .int 1)])
        latency := some 1 }).set 2
    { status := .done
      result := some (.obj [("steps", .int 8), ("max_value", .int 16),
        ("sequence_checksum", .int 55)])
      latency := some 2 }

theorem demoEnqueued_ends (job : EnqueuedJob) (member : job ∈ demoEnqueued) :
    job.Ends demoPython := by
  intro collatz n item
  simp only [demoEnqueued, List.mem_cons, List.not_mem_nil, or_false] at member
  rcases member with rfl | rfl | rfl
  · exact absurd collatz (by decide)
  · cases item
    exact ⟨8, by decide⟩
  · exact absurd collatz (by decide)

theorem demoCompleted_among : ∀ id ∈ demoCompleted, id ∈ demoEnqueued.map EnqueuedJob.id := by
  have keys : ∀ id ∈ demoCompleted.keys, id ∈ demoEnqueued.map EnqueuedJob.id := by decide
  exact fun id member => keys id (AList.mem_keys.1 member)

/-- Jobs 1 and 2 are done and job 3 is not in the map. -/
theorem benchmark_verdict_timeout :
    ∃ fuel r, analyse demoPython fuel demoEnqueued demoCompleted = some r ∧
      (r.correct + r.incorrect + r.failed : ℤ) + r.timedOut = r.total ∧
      ((printReport r 2).verdict = .allCorrect ↔
        AllVerified demoPython demoEnqueued demoCompleted) ∧
      (AllVerified demoPython demoEnqueued demoCompleted ↔ r.correct = r.total) := by
  have missing : ∃ job ∈ demoEnqueued, demoCompleted.lookup job.id = none :=
    ⟨_, List.mem_cons_of_mem _ (List.mem_cons_of_mem _ List.mem_cons_self), by decide⟩
  exact (benchmark_verdict_iff demoPython demoEnqueued demoCompleted 2 (by decide)
    demoCompleted_among).2 ⟨fun job member _ _ => demoEnqueued_ends job member, .inr (.inl missing)⟩

/-- Job 1 is dead. -/
def demoDead : Dict JobId CompletedRow :=
  (∅ : Dict JobId CompletedRow).set 1 { status := .dead, result := none, latency := none }

/-- The only job is dead: no result is correct, and the report announces that all are. -/
theorem benchmark_verdict_dead :
    ([demoPrime].map EnqueuedJob.id).Nodup ∧
      (∀ id ∈ demoDead, id ∈ [demoPrime].map EnqueuedJob.id) ∧
      (∀ row ∈ demoDead.values, row.status = .dead) ∧
      ∃ fuel r, analyse demoPython fuel [demoPrime] demoDead = some r ∧
        r.correct = 0 ∧ r.total = 1 ∧ (printReport r 1).verdict = .allCorrect ∧
        ¬ AllVerified demoPython [demoPrime] demoDead := by
  have keys : ∀ id ∈ demoDead.keys, id ∈ [demoPrime].map EnqueuedJob.id := by decide
  refine ⟨by decide, fun id member => keys id (AList.mem_keys.1 member), by decide, 0, _, rfl, rfl,
    rfl, rfl, ?_⟩
  intro all
  obtain ⟨row, found, done, -⟩ := all demoPrime List.mem_cons_self
  cases found
  cases done

end TaskQueue
