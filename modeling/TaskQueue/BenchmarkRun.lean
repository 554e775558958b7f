/-
# TaskQueue.BenchmarkRun -- a whole run of the correctness benchmark

`math_benchmark.py` generates jobs, enqueues them through the API, waits while the workers
run them, and verifies each result.  The jobs that it generates are of the types that handler
and ground truth read alike, and a row that is done has what the handler returned.

* `generateJobs` is `generate_jobs`, with `random` as a parameter.
* `accepted_of_done`: a result that got into a row is accepted.
* `benchmark_finds_no_error`: the report of every run of the benchmark.
-/
import TaskQueue.BuiltinJobs
import TaskQueue.Completion
import TaskQueue.Responses

namespace TaskQueue

set_option autoImplicit false

open Transition

/-! ## Generating jobs -/

/-- What the benchmark takes from the module `random`. -/
structure PyRandom where
  sample : List ℤ → ℕ → List ℤ
  length_sample : ∀ {pool : List ℤ} {k : ℕ}, k ≤ pool.length → (sample pool k).length = k
  mem_sample : ∀ {pool : List ℤ} {k : ℕ} {x : ℤ}, x ∈ sample pool k → x ∈ pool
  shuffle : List (String × Json) → List (String × Json)
  perm_shuffle : ∀ jobs, (shuffle jobs).Perm jobs

/-- `random.sample(pool, k)`. -/
def PyRandom.trySample (random : PyRandom) (pool : List ℤ) (k : ℤ) : Except PyError (List ℤ) :=
  if 0 ≤ k ∧ k ≤ pool.length then .ok (random.sample pool k.toNat)
  else .error { name := "ValueError", message := "Sample larger than population or is negative" }

/-- `xs * k`. -/
def repeated (xs : List ℤ) (k : ℤ) : List ℤ := (List.replicate k.toNat xs).flatten

def primes : List ℤ :=
  [104729, 611953, 1299709, 1500007, 3000017, 5000057, 7368787, 9999991, 15485863, 32452843,
    49979687, 67867967, 86028121, 104395301, 122949829]

def composites : List ℤ :=
  [104730, 611954, 1299710, 1500009, 3000019, 5000059, 7368789, 9999993, 15485865, 32452845,
    104729 * 2, 611953 * 3, 1299709 * 5, 104729 * 104729, 999983 * 999979]

/-- `_COLLATZ_SEEDS`, as integers from 2 on. -/
def collatzSeeds : List ℤ :=
  ([27, 97, 871, 6171, 77031, 837799, 8400511, 15733191, 31, 703, 9663, 77031, 704511,
      56991483] ++ (Loop.range 100 200 7).map Int.ofNat ++
    (Loop.range 1000 2000 37).map Int.ofNat ++
    (Loop.range 10000 15000 113).map Int.ofNat).filter fun x => 2 ≤ x

/-- `f"task-queue-bench-{i:06d}"`. -/
def benchSeed (i : ℕ) : String :=
  "task-queue-bench-" ++ String.ofList ((toString i).toList.leftpad 6 '0')

/-- `generate_jobs`. -/
def generateJobs (random : PyRandom) (nJobs sha256Rounds : ℤ) :
    Except PyError (List (String × Json)) := do
  let primeCount := nJobs / 3
  let pool := repeated (primes ++ composites) (primeCount / (primes ++ composites).length + 1)
  let nums ← random.trySample pool primeCount
  let collatzCount := nJobs / 3
  let seeds := repeated collatzSeeds (collatzCount / collatzSeeds.length + 1)
  let starts ← random.trySample seeds collatzCount
  let shaCount := nJobs - primeCount - collatzCount
  return random.shuffle
    (nums.map (fun num => ("is_prime", .obj [("n", .int num)])) ++
      starts.map (fun seed => ("collatz", .obj [("n", .int seed)])) ++
      (List.range shaCount.toNat).map fun i =>
        ("sha256_chain", .obj [("seed", .str (benchSeed i)), ("rounds", .int sha256Rounds)]))

section

variable {py : HandlerPython} {random : PyRandom} {nJobs rounds : ℤ} {jobs : List (String × Json)}

theorem length_repeated (xs : List ℤ) (k : ℤ) : (repeated xs k).length = k.toNat * xs.length := by
  simp [repeated]

theorem mem_repeated {xs : List ℤ} {k x : ℤ} (member : x ∈ repeated xs k) : x ∈ xs := by
  obtain ⟨ys, copy, here⟩ := List.mem_flatten.1 member
  rwa [List.eq_of_mem_replicate copy] at here

/-- The pool is longer than the sample taken from it. -/
theorem trySample_repeated {xs : List ℤ} (some_ : 0 < xs.length) {k : ℤ} (nonneg : 0 ≤ k) :
    random.trySample (repeated xs (k / xs.length + 1)) k =
      .ok (random.sample (repeated xs (k / xs.length + 1)) k.toNat) := by
  refine if_pos ⟨nonneg, ?_⟩
  have pos : (0 : ℤ) < xs.length := by exact_mod_cast some_
  have quotient := Int.ediv_nonneg nonneg pos.le
  have below := Int.lt_ediv_add_one_mul_self k pos
  rw [length_repeated, Nat.cast_mul, Int.toNat_of_nonneg (by omega)]
  omega

theorem trySample_ok {pool xs : List ℤ} {k : ℤ} (ok : random.trySample pool k = .ok xs) :
    0 ≤ k ∧ xs.length = k.toNat ∧ ∀ x ∈ xs, x ∈ pool := by
  unfold PyRandom.trySample at ok
  split at ok
  · rename_i enough
    cases ok
    exact ⟨enough.1, random.length_sample (by omega), fun x member => random.mem_sample member⟩
  · cases ok

/-- A job of the benchmark's own: `generate_jobs` has no others. -/
inductive Generated (rounds : ℤ) : String × Json → Prop
  | isPrime (num : ℤ) : Generated rounds ("is_prime", .obj [("n", .int num)])
  | collatz {seed : ℤ} (known : seed ∈ collatzSeeds) :
      Generated rounds ("collatz", .obj [("n", .int seed)])
  | sha256Chain (i : ℕ) : Generated rounds
      ("sha256_chain", .obj [("seed", .str (benchSeed i)), ("rounds", .int rounds)])

theorem hasInt_num {payload : Json} {key : String} {n : ℤ}
    (item : payload.item key = .ok (.int n)) : payload.HasInt key :=
  ⟨.int n, n, item, by simp [Json.int?]⟩

/-- The handler and the ground truth read it alike. -/
theorem Generated.verifiable {x : String × Json} (own : Generated rounds x) :
    Verifiable x.2 x.1 := by
  cases own with
  | isPrime num => exact verifiable_isPrime.2 (hasInt_num rfl)
  | collatz known => exact verifiable_collatz.2 (hasInt_num rfl)
  | sha256Chain i => exact verifiable_sha256Chain.2 ⟨⟨benchSeed i, rfl⟩, hasInt_num rfl⟩

/-- The sequence of every seed gets to 1. -/
theorem collatzSeeds_end :
    ∀ seed ∈ collatzSeeds,
      (Loop.whileFuel (fun n : ℤ => n ≠ 1) collatzNext 1000 seed).isSome = true := by
  decide +kernel

theorem collatzSeeds_reach {seed : ℤ} (known : seed ∈ collatzSeeds) :
    ∃ k, collatzNext^[k] seed = 1 := by
  obtain ⟨out, ends⟩ := Option.isSome_iff_exists.1 (collatzSeeds_end seed known)
  obtain ⟨k, leaves⟩ := Loop.ends_iff.1 ⟨1000, out, ends⟩
  exact ⟨k, by simpa using leaves⟩

/-- What `generate_jobs` has returned. -/
theorem generated_of_ok (ok : generateJobs random nJobs rounds = .ok jobs) :
    0 ≤ nJobs ∧ jobs.length = nJobs ∧ (∀ x ∈ jobs, Generated rounds x) ∧
      (jobs.countP fun x => x.1 = "is_prime") = nJobs / 3 ∧
      (jobs.countP fun x => x.1 = "collatz") = nJobs / 3 := by
  obtain ⟨nums, sampled, rest⟩ := bind_ok.1 ok
  obtain ⟨starts, sampled', made⟩ := bind_ok.1 rest
  obtain ⟨nonneg, length, -⟩ := trySample_ok sampled
  obtain ⟨-, length', known⟩ := trySample_ok sampled'
  cases made
  have perm := random.perm_shuffle
    (nums.map (fun num => ("is_prime", .obj [("n", .int num)])) ++
      starts.map (fun seed => ("collatz", .obj [("n", .int seed)])) ++
      (List.range (nJobs - nJobs / 3 - nJobs / 3).toNat).map fun i =>
        ("sha256_chain", .obj [("seed", .str (benchSeed i)), ("rounds", .int rounds)]))
  refine ⟨by omega, ?_, fun x member => ?_, ?_, ?_⟩
  · rw [perm.length_eq]
    simp only [List.length_append, List.length_map, List.length_range, length, length']
    omega
  · have member := perm.mem_iff.1 member
    simp only [List.mem_append, List.mem_map, List.mem_range] at member
    rcases member with (⟨num, -, rfl⟩ | ⟨seed, start, rfl⟩) | ⟨i, -, rfl⟩
    · exact .isPrime num
    · exact .collatz (mem_repeated (known seed start))
    · exact .sha256Chain i
  · rw [perm.countP_eq]
    simp [List.countP_map, Function.comp_def, length]
    omega
  · rw [perm.countP_eq]
    simp [List.countP_map, Function.comp_def, length']
    omega

/-- A sample is never larger than its pool. -/
theorem generateJobs_total (nonneg : 0 ≤ nJobs) :
    ∃ jobs, generateJobs random nJobs rounds = .ok jobs := by
  have third : 0 ≤ nJobs / 3 := by omega
  exact ⟨_, bind_ok.2 ⟨_, trySample_repeated (by decide) third,
    bind_ok.2 ⟨_, trySample_repeated (by decide) third, rfl⟩⟩⟩

/-! ## Handlers of the benchmark -/

theorem isPrime_member : ("is_prime", Builtin.isPrime py) ∈ builtinHandlers py := by
  simp [builtinHandlers]

theorem collatz_member : ("collatz", Builtin.collatz py) ∈ builtinHandlers py := by
  simp [builtinHandlers]

theorem sha256Chain_member : ("sha256_chain", Builtin.sha256Chain py) ∈ builtinHandlers py := by
  simp [builtinHandlers]

/-- A job whose payload is verifiable has a handler whose results are verified. -/
theorem verified_of_verifiable {payload : Json} {jobType : String} (repr : String → String)
    (typed : Verifiable payload jobType) :
    Verified py jobType ((builtins py).handler repr jobType) := by
  rcases typed with ⟨rfl | rfl, -⟩ | ⟨rfl, -⟩
  · rw [handler_of_lookup repr (builtins_lookup isPrime_member)]
    exact .isPrime
  · rw [handler_of_lookup repr (builtins_lookup collatz_member)]
    exact .collatz
  · rw [handler_of_lookup repr (builtins_lookup sha256Chain_member)]
    exact .sha256Chain

/-- The handler of a generated job returns. -/
theorem Generated.returns {x : String × Json} (own : Generated rounds x) (repr : String → String)
    {job : Record} (given : job.payload = x.2) :
    ∃ fuel v, ((builtins py).handler repr x.1).run fuel job = some (.ok v) := by
  have int (n : ℤ) : (Json.int n).int? = some n := by simp [Json.int?]
  cases own with
  | isPrime num =>
      rw [handler_of_lookup repr (builtins_lookup isPrime_member)]
      have arg : intArg py.int job.payload = .ok num := by
        rw [given]
        exact intArg_of_int? rfl (int num)
      refine ⟨0, (trialDivision num).result num, ?_⟩
      show some (isPrimeHandler py.int job.payload) = _
      rw [isPrimeHandler, arg]
      rfl
  | @collatz seed known =>
      rw [handler_of_lookup repr (builtins_lookup collatz_member)]
      have arg : intArg py.int job.payload = .ok seed := by
        rw [given]
        exact intArg_of_int? rfl (int seed)
      obtain ⟨fuel, out, ends⟩ := collatz_ends_of_reaches (collatzSeeds_reach known)
      refine ⟨fuel, out.result seed, ?_⟩
      show collatzHandler py.int fuel job.payload = _
      rw [collatzHandler, arg]
      simp [ends]
  | sha256Chain i =>
      rw [handler_of_lookup repr (builtins_lookup sha256Chain_member)]
      refine ⟨0, .obj [("seed", .str (benchSeed i)), ("rounds", .int rounds), ("final_hash",
        .str (hex (py.runtime.sha256^[rounds.toNat] (benchSeed i).toUTF8.toList)))],
        congrArg some ?_⟩
      refine bind_ok.2 ⟨benchSeed i, ?_, bind_ok.2 ⟨rounds, ?_, rfl⟩⟩
      · rw [given]
        rfl
      · have read : py.int.int (.int rounds) = .ok rounds := int_of_int? (int rounds)
        rw [given]
        exact read

end

/-- **The benchmark's jobs.**  `generate_jobs` returns exactly for the numbers of jobs that are
not negative, whatever `random` does: that many jobs, a third of them `is_prime` and a third
`collatz` jobs; the handler of each returns on it, and `verify_result` accepts what it
returns. -/
theorem generate_jobs_verifiable (py : HandlerPython) (repr : String → String)
    (random : PyRandom) (nJobs rounds : ℤ) :
    ((∃ jobs, generateJobs random nJobs rounds = .ok jobs) ↔ 0 ≤ nJobs) ∧
      ∀ jobs, generateJobs random nJobs rounds = .ok jobs →
        jobs.length = nJobs ∧ (jobs.countP fun x => x.1 = "is_prime") = nJobs / 3 ∧
          (jobs.countP fun x => x.1 = "collatz") = nJobs / 3 ∧
          ∀ x ∈ jobs, ∀ job : Record, job.payload = x.2 →
            ∃ fuel v, ((builtins py).handler repr x.1).run fuel job = some (.ok v) ∧
              verifyResult py.runtime fuel x.1 x.2 v = some (true, "") := by
  refine ⟨⟨?_, generateJobs_total⟩, fun jobs ok => ?_⟩
  · rintro ⟨jobs, ok⟩
    exact (generated_of_ok ok).1
  obtain ⟨-, length, own, primes_, collatz⟩ := generated_of_ok ok
  refine ⟨length, primes_, collatz, fun x member job given => ?_⟩
  have typed := (own x member).verifiable
  obtain ⟨fuel, v, returns⟩ := (own x member).returns repr given
  refine ⟨fuel, v, returns, ?_⟩
  rw [← given] at typed ⊢
  exact verify_accepts (verified_of_verifiable repr typed) typed returns

/-! ## Enqueueing and verifying -/

/-- The default of `priority` passes its own checks. -/
theorem default_priority : 1 ≤ 5 ∧ 5 ≤ 10 := by decide

/-- The body of a request of the benchmark, with the defaults of `JobCreate`. -/
def benchmarkBody (x : String × Json) : JobCreate where
  type := x.1
  payload := x.2
  priority := ⟨5, default_priority⟩
  maxRetries := 3
  runAt := none

/-- What the benchmark keeps of an answer to its requests. -/
def EnqueuedJob.ofAnswer (y : JobResponse) : EnqueuedJob where
  id := y.id
  type := y.type
  payload := some (.obj y.payload)

/-- `{j["id"]: j for j in enqueued}`. -/
def enqueuedLookup (enqueued : List EnqueuedJob) : Dict JobId EnqueuedJob :=
  Dict.setAll ∅ (enqueued.map fun job => (job.id, job))

/-- The answers are those of the benchmark's own requests. -/
def Answered (jobs : List (String × Json)) (answers : List JobResponse)
    (t : History Sys Event) : Prop :=
  ∀ y ∈ answers, ∃ a x, x ∈ jobs ∧ (a, .createJob (benchmarkBody x)) ∈ t ∧
    postAnswer a (benchmarkBody x) = some y

section

variable {py : HandlerPython} {cfg : Config} {t₀ : Time} {t : History Sys Event} {s : Sys}
  {jobs : List (String × Json)} {answers : List JobResponse} {enqueued : List EnqueuedJob}
  {job : EnqueuedJob} {y : JobResponse} {r : Job}

theorem lookup_enqueued {id : JobId} (found : (enqueuedLookup enqueued).lookup id = some job) :
    job.id = id ∧ job ∈ enqueued := by
  refine Dict.of_lookup_setAll (P := fun id job => job.id = id ∧ job ∈ enqueued) ?_ ?_ found
  · intro x member
    obtain ⟨job, here, rfl⟩ := List.mem_map.1 member
    exact ⟨rfl, here⟩
  · intro id job absent
    cases absent

theorem mem_values (member : job ∈ (enqueuedLookup enqueued).values) : job ∈ enqueued := by
  obtain ⟨x, entry, rfl⟩ := List.mem_map.1 member
  exact (lookup_enqueued (Dict.lookup_entry entry)).2

/-- The ids of the values are the keys. -/
theorem map_id_values :
    (enqueuedLookup enqueued).values.map EnqueuedJob.id = (enqueuedLookup enqueued).keys := by
  rw [Dict.values, List.map_map]
  apply List.map_congr_left
  intro x entry
  exact (lookup_enqueued (Dict.lookup_entry entry)).1

theorem mem_ids {id : JobId} :
    id ∈ (enqueuedLookup enqueued).values.map EnqueuedJob.id ↔
      id ∈ enqueued.map EnqueuedJob.id := by
  rw [map_id_values, ← AList.mem_keys, enqueuedLookup, Dict.mem_setAll, List.map_map]
  exact or_iff_left (AList.notMem_empty _)

/-- An object that has a key is what the API answers. -/
theorem dict_of_hasInt {payload : Json} {key : String} (has : payload.HasInt key) :
    ∃ fields, payload = .obj fields := by
  obtain ⟨value, n, item, -⟩ := has
  cases payload with
  | obj fields => exact ⟨fields, rfl⟩
  | _ => cases item

theorem dict_of_verifiable {payload : Json} {jobType : String}
    (typed : Verifiable payload jobType) : ∃ fields, payload = .obj fields := by
  rcases typed with ⟨-, has⟩ | ⟨-, -, has⟩
  · exact dict_of_hasInt has
  · exact dict_of_hasInt has

/-- A verified handler returns an object. -/
theorem dict_of_returns {jobType : String} {h : Handler} {job : Record} {fuel : ℕ} {v : Json}
    (verified : Verified py jobType h) (returns : h.run fuel job = some (.ok v)) :
    ∃ fields, v = .obj fields := by
  cases verified with
  | isPrime =>
      obtain ⟨_, _, _, _, rfl⟩ := isPrime_returns returns
      exact ⟨_, rfl⟩
  | collatz =>
      obtain ⟨_, _, _, _, _, _, rfl⟩ := collatz_returns returns
      exact ⟨_, rfl⟩
  | sha256Chain =>
      obtain ⟨_, _, _, _, _, _, _, _, rfl⟩ := sha256Chain_returns returns
      exact ⟨_, rfl⟩

/-- **A result that got into a row is accepted.** -/
theorem accepted_of_done (run : Runs cfg t₀ .empty t s) (serves : cfg.Serves (builtins py))
    (follows : EachStep (Follows cfg (builtins py)) t) (answered : Answered jobs answers t)
    (own : ∀ x ∈ jobs, Verifiable x.2 x.1) (member : y ∈ answers)
    (row : s.db.jobs.row y.id = some r) (done : r.status = .done) :
    ∃ fuel, verifyJob py.runtime fuel (.ofAnswer y) (completedRow r) = some (true, "") := by
  obtain ⟨a, x, generated, post, answer⟩ := answered y member
  obtain ⟨id_, type, payload, -⟩ := rowToResponse_columns answer
  have posted : enqueued cfg a.db.jobs.next t = some (benchmarkBody x) :=
    (posted_unique run (posted_of_member post)).1
  rw [id_] at row
  have typed := own x generated
  have verified : Verified py x.1 ((builtins py).handler cfg.repr x.1) :=
    verified_of_verifiable cfg.repr typed
  cases (story_of_run serves run follows).row _ r _ row posted with
  | undone undone _ => exact absurd done undone
  | @done k fuel runAt v _ _ _ ends result =>
      refine ⟨fuel, ?_⟩
      obtain ⟨fields, given⟩ := dict_of_verifiable typed
      obtain ⟨fields', made⟩ := dict_of_returns verified ends
      have accepts := verify_accepts verified typed ends
      have payload_ : (EnqueuedJob.ofAnswer y).payloadOrEmpty = x.2 := by
        have same : x.2.orEmpty.dict? = some y.payload := payload
        rw [given] at same ⊢
        cases same
        rfl
      have result_ : (completedRow r).resultOrEmpty = v := by
        show (r.result.getD .null).orEmpty = v
        rw [result, made]
        rfl
      rw [verifyJob, payload_, result_]
      show verifyResult _ _ y.type _ _ = _
      rw [type]
      exact accepts

/-- No fate of a job is that its result is incorrect, or that its verification does not end,
if every done row of the map is accepted. -/
theorem analyse_of_accepts {rt : PyRuntime} {completed : Dict JobId CompletedRow}
    (distinct : (enqueued.map EnqueuedJob.id).Nodup)
    (among : ∀ id ∈ completed, id ∈ enqueued.map EnqueuedJob.id)
    (accepts : ∀ job ∈ enqueued, ∀ row ∈ doneRow completed job,
      ∃ fuel, verifyJob rt fuel job row = some (true, "")) (elapsed : ℚ) :
    ∃ fuel r, analyse rt fuel enqueued completed = some r ∧ r.incorrect = 0 ∧
      (r.correct + r.failed : ℤ) + r.timedOut = r.total ∧
      ((printReport r elapsed).verdict = .allCorrect ↔ r.timedOut = 0) := by
  have ends : ∀ job ∈ enqueued, ∀ row ∈ doneRow completed job, job.Ends rt := by
    intro job member row done
    obtain ⟨fuel, check⟩ := accepts job member row done
    exact verifyResult_ends_iff.1 ⟨fuel, _, check⟩
  obtain ⟨fuel, r, returns⟩ := analyse_total ends
  have counted := counts_of_analyse distinct among returns
  have right (job : EnqueuedJob) (member : job ∈ enqueued) :
      fate rt fuel completed job ≠ .incorrect := by
    rw [Ne, fate_incorrect_iff (counted.ended job member)]
    rintro ⟨row, done, more, reason, rejects⟩
    obtain ⟨fuel', check⟩ := accepts job member row done
    cases verifyJob_unique check rejects
  have incorrect : fated rt fuel completed enqueued .incorrect = 0 := fated_eq_zero.2 right
  refine ⟨fuel, r, returns, counted.incorrect.trans incorrect, ?_, ?_⟩
  · have sum := length_eq_fated counted.ended
    rw [counted.correct, counted.failed, counted.timedOut, counted.total]
    rw [incorrect] at sum
    exact_mod_cast (by omega :
      fated rt fuel completed enqueued .correct + fated rt fuel completed enqueued .failed +
        fated rt fuel completed enqueued .timedOut = enqueued.length)
  · rw [announces_iff counted, counted.timedOut, Int.natCast_eq_zero, fated_eq_zero]
    exact forall₂_congr fun job member => and_iff_right (right job member)

end

/-- **The benchmark finds no error.**  In every run whose workers run the built-in handlers,
with any interleaving of workers, crashes and sweeps, also with `'done'` UPDATEs that raise,
and with polls at any moments: the benchmark's report counts no incorrect result, every job is
counted as correct, failed or timed out, and the verdict is that all are correct exactly if
none timed out. -/
theorem benchmark_finds_no_error (py : HandlerPython) (random : PyRandom) (nJobs rounds : ℤ)
    (jobs : List (String × Json)) (generated : generateJobs random nJobs rounds = .ok jobs)
    (cfg : Config) (t₀ : Time) {t u : History Sys Event} {s s' : Sys}
    (run : Runs cfg t₀ .empty t s) (serves : cfg.Serves (builtins py))
    (answers : List JobResponse) (answered : Answered jobs answers t) (some_ : answers ≠ [])
    {states : List Sys} (visits : Visits (step cfg) s u states s')
    (follows : EachStep (Follows cfg (builtins py)) (u ++ t)) (polls : List Poll)
    (made : polls.map Poll.db = states.map Sys.db) (elapsed : ℚ) :
    ∃ doneMap fuel r, waitForCompletion (answers.map JobResponse.id) polls ∅ = .ok doneMap ∧
      analyse py.runtime fuel (enqueuedLookup (answers.map .ofAnswer)).values doneMap = some r ∧
      r.incorrect = 0 ∧ (r.correct + r.failed : ℤ) + r.timedOut = r.total ∧
      ((printReport r elapsed).verdict = .allCorrect ↔ r.timedOut = 0) := by
  have run' := run.append visits.run
  have own (x : String × Json) (member : x ∈ jobs) : Verifiable x.2 x.1 :=
    ((generated_of_ok generated).2.2.1 x member).verifiable
  have answered' : Answered jobs answers (u ++ t) := by
    intro y member
    obtain ⟨a, x, known, post, answer⟩ := answered y member
    exact ⟨a, x, known, List.mem_append_right u post, answer⟩
  have ids : (answers.map EnqueuedJob.ofAnswer).map EnqueuedJob.id = answers.map JobResponse.id :=
    List.map_map
  obtain ⟨doneMap, returned, lookup⟩ :=
    lookup_of_polls run visits (mt List.map_eq_nil_iff.1 some_) made
  have distinct : ((enqueuedLookup (answers.map .ofAnswer)).values.map EnqueuedJob.id).Nodup := by
    rw [map_id_values]
    exact (enqueuedLookup _).keys_nodup
  have among : ∀ id ∈ doneMap,
      id ∈ (enqueuedLookup (answers.map .ofAnswer)).values.map EnqueuedJob.id := by
    intro id member
    rw [mem_ids, ids]
    exact Polling.wanted_of_mem lookup member
  have accepts : ∀ job ∈ (enqueuedLookup (answers.map .ofAnswer)).values,
      ∀ row ∈ doneRow doneMap job,
        ∃ fuel, verifyJob py.runtime fuel job row = some (true, "") := by
    intro job member row done
    obtain ⟨y, answer, rfl⟩ := List.mem_map.1 (mem_values member)
    obtain ⟨found, status⟩ := doneRow_eq_some.1 done
    rw [lookup, Polling.among, Option.ite_none_right_eq_some] at found
    obtain ⟨r, there, -, rfl⟩ := finalRow_eq_some.1 (seen_of_polls run visits made found.2)
    exact accepted_of_done run' serves follows answered' own answer there status
  obtain ⟨fuel, r, counts⟩ := analyse_of_accepts distinct among accepts elapsed
  exact ⟨doneMap, fuel, r, returned, counts⟩

/-! ## A run of the benchmark with one job done -/

/-- Samples from the front, and no shuffle. -/
def demoRandom : PyRandom where
  sample pool k := pool.take k
  length_sample le := List.length_take_of_le le
  mem_sample := List.mem_of_mem_take
  shuffle jobs := jobs
  perm_shuffle _ := List.Perm.refl _

def demoPrimeJob : String × Json := ("is_prime", .obj [("n", .int (104729 : ℤ))])

theorem demo_generated :
    ∃ jobs, generateJobs demoRandom 3 5 = .ok jobs ∧ demoPrimeJob ∈ jobs :=
  ⟨_, rfl, List.mem_cons_self⟩

/-- The request for `demoPrimeJob`, from empty tables. -/
def demoAsk : History Sys Event := [(.boot 0 .empty, .createJob (benchmarkBody demoPrimeJob))]

def demoAsked : Sys :=
  (step demoBuiltins (.boot 0 .empty) (.createJob (benchmarkBody demoPrimeJob))).getD
    (.boot 0 .empty)

/-- A worker that runs `is_prime` on it to the end. -/
def demoPrimeEvents : List Event :=
  [.start 0, .worker ⟨0, 0⟩ (.connect true)] ++ demoClaim ⟨0, 0⟩ [1] (some 1) ++
    [.worker ⟨0, 0⟩ (.markRunning false), .worker ⟨0, 0⟩ .startHandler,
      .worker ⟨0, 0⟩ (.handlerEnds demoPrimeJob.2 (.returns (.storable (some (.obj
        [("n", .int (104729 : ℤ)), ("is_prime", .bool true),
          ("divisors_checked", .int (162 : ℕ))]))))),
      .worker ⟨0, 0⟩ (.storeDone none), .worker ⟨0, 0⟩ (.unlock false)]

def Json.isDemoPrime : Json → Bool
  | .obj [("n", .int q)] => q = 104729
  | _ => false

theorem Json.eq_of_isDemoPrime {payload : Json} (is_ : payload.isDemoPrime = true) :
    payload = demoPrimeJob.2 := by
  unfold isDemoPrime at is_
  split at is_
  · rw [decide_eq_true_iff.1 is_]
    rfl
  · cases is_

def HandlerOutcome.isDemoPrime : HandlerOutcome → Bool
  | .returns (.storable (some (.obj [("n", .int n), ("is_prime", .bool true),
      ("divisors_checked", .int c)]))) => n = 104729 && c = 162
  | _ => false

theorem HandlerOutcome.ends_of_isDemoPrime {outcome : HandlerOutcome} {job : Record}
    (is_ : outcome.isDemoPrime = true) (given : job.payload = demoPrimeJob.2) :
    (Builtin.isPrime demoHandlerPython).Ends job outcome := by
  unfold isDemoPrime at is_
  split at is_
  · simp only [Bool.and_eq_true, decide_eq_true_eq] at is_
    obtain ⟨rfl, rfl⟩ := is_
    have prime : (trialDivision 104729).isPrime = true := by decide +kernel
    have checked : (trialDivision 104729).divisorsChecked = 162 := by decide +kernel
    have arg : intArg demoHandlerPython.int job.payload = .ok 104729 := by
      rw [given]
      rfl
    have returns : (Builtin.isPrime demoHandlerPython).run 0 job =
        some (.ok ((trialDivision 104729).result 104729)) := by
      show some (isPrimeHandler _ job.payload) = _
      rw [isPrimeHandler, arg]
      rfl
    rw [Primality.result, prime, checked] at returns
    exact .returns returns
  · cases is_

/-- Every handler that ends is `is_prime`, at the job `demoPrimeJob`. -/
def allDemoPrime (t : History Sys Event) : Bool :=
  t.all fun x =>
    match x.2 with
    | .worker w (.handlerEnds payload outcome) =>
        match x.1.pc w with
        | .handling job =>
            job.type = "is_prime" && job.payload.isDemoPrime && payload.isDemoPrime &&
              outcome.isDemoPrime
        | _ => false
    | _ => true

theorem follows_of_allDemoPrime {cfg : Config} {t : History Sys Event}
    (all : allDemoPrime t = true) : EachStep (Follows cfg (builtins demoHandlerPython)) t := by
  induction t with
  | nil => trivial
  | cons x t ih =>
      obtain ⟨s, e⟩ := x
      simp only [allDemoPrime, List.all_cons, Bool.and_eq_true] at all
      refine ⟨?_, ih all.2⟩
      rintro w job payload outcome rfl at_
      have now := all.1
      simp only [at_, Bool.and_eq_true, decide_eq_true_eq] at now
      obtain ⟨⟨⟨type, given⟩, payload_⟩, ends⟩ := now
      have given := Json.eq_of_isDemoPrime given
      rw [type, handler_of_lookup _ (builtins_lookup isPrime_member), given]
      exact ⟨Json.eq_of_isDemoPrime payload_, HandlerOutcome.ends_of_isDemoPrime ends given⟩

/-- One poll before a worker runs the job, and one after. -/
theorem benchmark_finds_no_error_prime :
    ∃ (s : Sys) (y : JobResponse) (doneMap : Dict JobId CompletedRow) (fuel : ℕ)
      (r : Analysis), postAnswer (.boot 0 .empty) (benchmarkBody demoPrimeJob) = some y ∧
      waitForCompletion [y.id] [demoPoll demoAsked.db, demoPoll s.db] ∅ = .ok doneMap ∧
      analyse demoHandlerPython.runtime fuel (enqueuedLookup [.ofAnswer y]).values doneMap =
        some r ∧ r.incorrect = 0 := by
  obtain ⟨jobs, ok, known⟩ := demo_generated
  obtain ⟨y, answer⟩ : ∃ y, postAnswer (.boot 0 .empty) (benchmarkBody demoPrimeJob) = some y :=
    ⟨_, rfl⟩
  have asked : Runs demoBuiltins 0 .empty demoAsk demoAsked := .snoc .nil rfl
  have replayed : (exec (step demoBuiltins) [] demoAsked demoPrimeEvents).any
      (fun out => allDemoPrime out.1) = true := by decide +kernel
  obtain ⟨u, s, run, follows⟩ := run_of_exec demoPrimeEvents _ replayed
  have visits : Visits (step demoBuiltins) demoAsked u [demoAsked, s] s := by
    simpa using Visits.next .nil (.next run (.rest .nil))
  have answered : Answered jobs [y] demoAsk := by
    intro y' member
    cases List.mem_singleton.1 member
    exact ⟨_, demoPrimeJob, known, List.mem_cons_self, answer⟩
  have follows' : EachStep (Follows demoBuiltins (builtins demoHandlerPython)) (u ++ demoAsk) := by
    apply follows_of_allDemoPrime
    rw [allDemoPrime, List.all_append, Bool.and_eq_true]
    exact ⟨follows, rfl⟩
  obtain ⟨doneMap, fuel, r, returned, analysed, none_, -⟩ := benchmark_finds_no_error
    demoHandlerPython demoRandom 3 5 jobs ok demoBuiltins 0 asked rfl [y] answered
    (List.cons_ne_nil y []) visits follows' [demoPoll demoAsked.db, demoPoll s.db] rfl 1
  exact ⟨s, y, doneMap, fuel, r, answer, returned, analysed, none_⟩

end TaskQueue
