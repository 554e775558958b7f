/-
# TaskQueue.BuiltinJobs -- what becomes of a job with a built-in handler

`worker/registry.py` says of its handlers what the tests rely on: `noop` succeeds at once,
`always_fail` drives the dead letter queue, `flaky` fails on attempts 0 and 1, `echo` returns
its payload.  Those are statements about one call of a handler.  With the loop of
`Sequential` they are statements about the row that such a job ends with, in every run.
-/
import TaskQueue.Acceptance
import TaskQueue.Sequential

namespace TaskQueue

set_option autoImplicit false

open Transition

section

variable {h : Handler} {fuel : ℕ} {j : JobId} {body : JobCreate}

/-- A handler that returns at once is not tried again. -/
theorem runJob_of_returns {value : Json}
    (returns : ∀ job, job.payload = body.payload → h.run fuel job = some (.ok value)) :
    runJob h fuel j body = some (.succeeded 0 value none) :=
  RetryLoop.attempts_ok (by rw [tryJob, returns _ rfl]; rfl)

/-- A handler that always raises uses up the budget. -/
theorem runJob_of_raises {e : PyError}
    (raises : ∀ job, job.id = j → h.run fuel job = some (.error e)) :
    runJob h fuel j body = some (.gaveUp (body.maxRetries - 1) e.text) := by
  refine RetryLoop.givesUp_of_fails (fun _ => e.text) (fun k _ last => ?_) fun _ => rfl
  rw [tryJob, raises _ rfl]
  rfl

theorem tryFlaky_fails {k : ℕ} (early : k < 2) (last : Option String) :
    tryJob Builtin.flaky fuel j body k last = some (.error (flakyError k).text) := by
  rw [tryJob, flaky_early fuel early]
  rfl

/-- What `flaky` returns when it succeeds. -/
def flakyResult : Json := .obj [("ok", .bool true), ("succeeded_on_attempt", .int 2)]

theorem runJob_flaky :
    runJob Builtin.flaky fuel j body =
      some (if body.maxRetries < 3 then
          .gaveUp (body.maxRetries - 1) (flakyError (body.maxRetries - 1)).text
        else .succeeded 2 flakyResult (some (flakyError 1).text)) := by
  split
  · exact RetryLoop.givesUp_of_fails (fun k => (flakyError k).text)
      (fun k lt last => tryFlaky_fails (by omega) last) fun _ => rfl
  · exact RetryLoop.succeeds_of_fails (fun k => (flakyError k).text)
      (fun k lt last => tryFlaky_fails lt last) (fun _ => rfl) (fun _ => rfl) (by omega)

/-- The row of a job whose loop has used up the budget. -/
theorem Job.Records.dead {r : Job} {error : String}
    (records : r.Records (.gaveUp (body.maxRetries - 1) error)) :
    r.status = .dead ∧ r.attempt = max 1 body.maxRetries ∧ r.result = none ∧
      r.error = some error := by
  obtain ⟨dead, attempt, rest⟩ := records
  exact ⟨dead, by omega, rest⟩

variable {py : HandlerPython} {cfg : Config} {t₀ : Time} {t : History Sys Event} {s : Sys} {r : Job}

/-- How the loop of a job with a built-in handler ended, by its row. -/
theorem ends_of_builtin (run : Runs cfg t₀ .empty t s) (serves : cfg.Serves (builtins py))
    (follows : EachStep (Follows cfg (builtins py)) t) (stores : EachStep (StoresJob j) t)
    (posted : enqueued cfg j t = some body) {name : String} (type : body.type = name)
    (member : (name, h) ∈ builtinHandlers py) (row : s.db.jobs.row j = some r)
    (final : r.status = .done ∨ r.status = .dead) :
    ∃ fuel result, runJob h fuel j body = some result ∧ r.Records result := by
  obtain ⟨fuel, result, ends, records⟩ :=
    ends_of_final run serves (builtins_timeless py) follows stores row final posted
  rw [type, handler_of_lookup _ (builtins_lookup member)] at ends
  exact ⟨fuel, result, ends, records⟩

theorem noop_member : ("noop", Builtin.noop) ∈ builtinHandlers py := by simp [builtinHandlers]

theorem done_of_noop (run : Runs cfg t₀ .empty t s) (serves : cfg.Serves (builtins py))
    (follows : EachStep (Follows cfg (builtins py)) t) (stores : EachStep (StoresJob j) t)
    (posted : enqueued cfg j t = some body) (type : body.type = "noop")
    (row : s.db.jobs.row j = some r) (final : r.status = .done ∨ r.status = .dead) :
    r.status = .done := by
  obtain ⟨fuel, result, ends, records⟩ :=
    ends_of_builtin run serves follows stores posted type noop_member row final
  cases ends.symm.trans (runJob_of_returns fun _ _ => rfl)
  exact records.1

end

/-- **Jobs with built-in handlers.**  In every run of the built-in handlers in which no `'done'`
UPDATE of the job raises, a job that is final by then is as its handler says: `noop` and `echo`
are done at the first attempt, `echo` with its payload as the result; `always_fail`, and a type
that is not registered, is dead with its budget used up; `flaky` is done at the third attempt,
with the error of the second left in its row, if its budget has a third attempt, and dead if
not. -/
theorem builtin_jobs (py : HandlerPython) (cfg : Config) (t₀ : Time) {t : History Sys Event}
    {s : Sys} (run : Runs cfg t₀ .empty t s) (serves : cfg.Serves (builtins py))
    (follows : EachStep (Follows cfg (builtins py)) t) (j : JobId)
    (stores : EachStep (StoresJob j) t) (body : JobCreate) (posted : enqueued cfg j t = some body)
    (r : Job) (row : s.db.jobs.row j = some r) (final : r.status = .done ∨ r.status = .dead) :
    (body.type = "noop" →
        r.status = .done ∧ r.attempt = 1 ∧ r.result = some (.obj [("ok", .bool true)]) ∧
          r.error = none) ∧
      (∀ fields, body.type = "echo" → body.payload = .obj fields →
        r.status = .done ∧ r.attempt = 1 ∧ r.result = some body.payload ∧ r.error = none) ∧
      (body.type = "always_fail" →
        r.status = .dead ∧ r.attempt = max 1 body.maxRetries ∧ r.result = none ∧
          r.error = some ("RuntimeError: always_fail handler: intentional failure on job " ++
            toString j)) ∧
      (∀ e, getHandler cfg body.type = .error e →
        r.status = .dead ∧ r.attempt = max 1 body.maxRetries ∧ r.result = none ∧
          r.error = some e.text) ∧
      (body.type = "flaky" → body.maxRetries < 3 →
        r.status = .dead ∧ r.attempt = max 1 body.maxRetries ∧ r.result = none ∧
          r.error = some ("RuntimeError: flaky handler: intentional failure on attempt " ++
            toString (body.maxRetries - 1))) ∧
      (body.type = "flaky" → 3 ≤ body.maxRetries →
        r.status = .done ∧ r.attempt = 3 ∧
          r.result = some (.obj [("ok", .bool true), ("succeeded_on_attempt", .int 2)]) ∧
          r.error = some "RuntimeError: flaky handler: intentional failure on attempt 1") := by
  obtain ⟨fuel, result, ends, records⟩ :=
    ends_of_final run serves (builtins_timeless py) follows stores row final posted
  -- the handler of a type that is registered
  have handler {name : String} {h : Handler} (type : body.type = name)
      (member : (name, h) ∈ builtinHandlers py) : runJob h fuel j body = some result := by
    rw [type, handler_of_lookup _ (builtins_lookup member)] at ends
    exact ends
  refine ⟨fun type => ?_, fun fields type given => ?_, fun type => ?_, fun e raises => ?_,
    fun type short => ?_, fun type long => ?_⟩
  · have ends := handler type (h := Builtin.noop) (by simp [builtinHandlers])
    cases ends.symm.trans (runJob_of_returns fun _ _ => rfl)
    exact records
  · have ends := handler type (h := Builtin.echo py) (by simp [builtinHandlers])
    have returns (job : Record) (same : job.payload = body.payload) :
        (Builtin.echo py).run fuel job = some (.ok body.payload) := by
      simp [Builtin.echo, Handler.ofFunction, same, given]
    cases ends.symm.trans (runJob_of_returns returns)
    exact records
  · have ends := handler type (h := Builtin.alwaysFail) (by simp [builtinHandlers])
    have raises (job : Record) (same : job.id = j) :
        Builtin.alwaysFail.run fuel job = some (.error
          { name := "RuntimeError"
            message := "always_fail handler: intentional failure on job " ++ toString j }) := by
      rw [← same]
      rfl
    cases ends.symm.trans (runJob_of_raises raises)
    exact records.dead
  · have raises (job : Record) (_ : job.id = j) := run_of_unregistered serves raises fuel job
    cases ends.symm.trans (runJob_of_raises raises)
    exact records.dead
  · have ends := handler type (h := Builtin.flaky) (by simp [builtinHandlers])
    cases ends.symm.trans (runJob_flaky.trans (congrArg some (if_pos short)))
    exact records.dead
  · have ends := handler type (h := Builtin.flaky) (by simp [builtinHandlers])
    cases ends.symm.trans (runJob_flaky.trans (congrArg some (if_neg (not_lt.2 long))))
    exact records

def demoBuiltins : Config where
  baseDelay := 5
  workerCount := 2
  registry :=
    ["noop", "always_fail", "flaky", "slow", "echo", "is_prime", "collatz", "sha256_chain"]
  repr := demo.repr

/-- A job of type `flaky` with a budget of three. -/
theorem builtin_jobs_flaky :
    ∃ t s r, Runs demoBuiltins 0 .empty t s ∧ s.db.jobs.row 1 = some r ∧ r.attempt = 3 ∧
      r.error = some "RuntimeError: flaky handler: intentional failure on attempt 1" := by
  have found : (builtins demoHandlerPython).lookup "flaky" = some Builtin.flaky :=
    builtins_lookup (x := ("flaky", Builtin.flaky)) (by simp [builtinHandlers])
  obtain ⟨t, s, r, run, row, done, posted, follows, stores⟩ :=
    demoFlaky_run demoBuiltins found (demoFlakyEvents ⟨0, 0⟩ ⟨0, 0⟩ ⟨0, 0⟩) (by decide +kernel)
  obtain ⟨-, -, -, -, -, flaky⟩ := builtin_jobs demoHandlerPython demoBuiltins 0 run rfl follows 1
    (stores 1) demoFlakyJob posted r row (.inl done)
  obtain ⟨-, attempt, -, error⟩ := flaky rfl (le_refl 3)
  exact ⟨t, s, r, run, row, attempt, error⟩

end TaskQueue
