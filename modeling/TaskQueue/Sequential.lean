/-
# TaskQueue.Sequential -- the life of a job, told as one loop

What the program is for, seen from one job: its handler is tried until it returns, at most
`max(1, max_retries)` times.  `runJob` is that loop.  The program gets there with claims,
crashes, sweeps and retries of several workers in between; where a handler's outcome depends
on the job alone, nothing of that shows in the row it leaves.

* `Follows`: the handlers that end in a run are those of a registry.
* `Attempted` are the failures of a job so far, `Told` what a row says of them.
* `story_of_run` is the invariant of rows, records and program points.
* `final_runs_job`: a row that is done or dead is the end of the loop.
-/
import TaskQueue.Columns
import TaskQueue.Payloads
import TaskQueue.Registry
import TaskQueue.Lib.RetryLoop

namespace TaskQueue

set_option autoImplicit false

open Transition

/-! ## The loop -/

/-- The record that a claim of job `j` reads after `attempt` attempts, the last of which
failed with `error`. -/
def JobCreate.record (body : JobCreate) (j : JobId) (attempt : ℕ) (error : Option String)
    (runAt : Time) : Record where
  id := j
  type := body.type
  payload := body.payload
  status := .pending
  priority := body.priority
  attempt := attempt
  maxRetries := body.maxRetries
  runAt := runAt
  workerId := none
  error := error

/-- One attempt at a job. -/
def tryJob (h : Handler) (fuel : ℕ) (j : JobId) (body : JobCreate) :
    RetryLoop.Action Json String :=
  fun k last => (h.run fuel (body.record j k last 0)).map (Except.mapError PyError.text)

/-- The handler, until it returns or the job's budget is used up. -/
def runJob (h : Handler) (fuel : ℕ) (j : JobId) (body : JobCreate) :
    Option (RetryLoop.Result Json String) :=
  RetryLoop.attempts (tryJob h fuel j body) (fun _ => false) (body.maxRetries - 1) 0 none

/-- A row that is done or dead, as an end of the loop. -/
def Job.Records (r : Job) : RetryLoop.Result Json String → Prop
  | .succeeded k value last =>
      r.status = .done ∧ r.attempt = k + 1 ∧ r.result = some value ∧ r.error = last
  | .gaveUp k error =>
      r.status = .dead ∧ r.attempt = k + 1 ∧ r.result = none ∧ r.error = some error

/-! ## Handlers in a run -/

/-- A handler that ends is that of the registry, and has left its payload object alone. -/
def Follows (cfg : Config) (registry : Registry) (_ : History Sys Event) (s : Sys) (e : Event) :
    Prop :=
  ∀ w job payload outcome, e = .worker w (.handlerEnds payload outcome) → s.pc w = .handling job →
    payload = job.payload ∧ (registry.handler cfg.repr job.type).Ends job outcome

/-- The step is no `'done'` UPDATE of job `j` that raises. -/
def StoresJob (j : JobId) (_ : History Sys Event) (s : Sys) (e : Event) : Prop :=
  ∀ w job value error, e = .worker w (.storeDone (some error)) → s.pc w = .storing job value →
    job.id ≠ j

/-- The first `k` attempts at a job failed, the last with the text `last`; a handler that
returned failed only if its result was not `stored`. -/
inductive Attempted (h : Handler) (j : JobId) (body : JobCreate) (stored : Prop) :
    ℕ → Option String → Prop
  | start : Attempted h j body stored 0 none
  | raised {k fuel : ℕ} {last : Option String} {runAt : Time} {e : PyError}
      (before : Attempted h j body stored k last)
      (ends : h.run fuel (body.record j k last runAt) = some (.error e)) :
      Attempted h j body stored (k + 1) (some e.text)
  | unstored {k fuel : ℕ} {last : Option String} {runAt : Time} {value : Json} {e : PyError}
      (before : Attempted h j body stored k last)
      (ends : h.run fuel (body.record j k last runAt) = some (.ok value)) (fault : ¬ stored) :
      Attempted h j body stored (k + 1) (some e.text)

/-- What a row says of its attempts: those that failed, and the one that returned. -/
inductive Told (h : Handler) (j : JobId) (body : JobCreate) (stored : Prop) (r : Job) : Prop
  | undone (undone : r.status ≠ .done) (failed : Attempted h j body stored r.attempt r.error)
  | done {k fuel : ℕ} {runAt : Time} {value : Json} (done : r.status = .done)
      (attempt : r.attempt = k + 1) (failed : Attempted h j body stored k r.error)
      (ends : h.run fuel (body.record j k r.error runAt) = some (.ok value))
      (result : r.result = some value)

/-- Why a job is about to be retried or buried with the error `e`. -/
def Handler.FailsWith (h : Handler) (job : Record) (stored : Prop) (e : PyError) : Prop :=
  (∃ fuel, h.run fuel job = some (.error e)) ∨ ∃ fuel value, h.run fuel job = some (.ok value) ∧
    ¬ stored

/-- Rows, records and program points agree with what the handlers of the registry do. -/
structure Story (cfg : Config) (registry : Registry) (t : History Sys Event) (s : Sys) : Prop where
  row : ∀ j r body, s.db.jobs.row j = some r → enqueued cfg j t = some body →
    Told (registry.handler cfg.repr body.type) j body (EachStep (StoresJob j) t) r
  record : ∀ w job, (s.stages w).job? = some job →
    ∃ body, enqueued cfg job.id t = some body ∧
      job = body.record job.id job.attempt job.error job.runAt ∧
      Attempted (registry.handler cfg.repr body.type) job.id body
        (EachStep (StoresJob job.id) t) job.attempt job.error ∧
      ∀ r, s.db.jobs.row job.id = some r → r.error = job.error
  storing : ∀ w job value, s.pc w = .storing job value →
    ∃ fuel v, (registry.handler cfg.repr job.type).run fuel job = some (.ok v) ∧
      ∀ x, value = .storable x → x = some v
  failing : ∀ w job e, s.pc w = .failing job e →
    (registry.handler cfg.repr job.type).FailsWith job (EachStep (StoresJob job.id) t) e

section

variable {cfg : Config} {registry : Registry} {t₀ : Time} {t : History Sys Event} {s s' : Sys}
  {e : Event} {w : WorkerId} {j : JobId} {r r' : Job} {job : Record} {h : Handler}
  {body : JobCreate} {stored stored' : Prop}

/-! ## Program points that follow a handler -/

/-- The await before the `'done'` UPDATE or before `_handle_failure`. -/
inductive Follow (cfg : Config) : Pc → WorkerAct → Pc → Prop
  | returned (job : Record) (payload : Json) (value : HandlerValue) :
      Follow cfg (.handling job) (.handlerEnds payload (.returns value))
        (.storing { job with payload } value)
  | raised (job : Record) (payload : Json) (e : PyError) :
      Follow cfg (.handling job) (.handlerEnds payload (.raises e))
        (.failing { job with payload } e)
  | unknown {job : Record} {e : PyError} (raises : getHandler cfg job.type = .error e) :
      Follow cfg (.starting job) .startHandler (.failing job e)
  | unstored (job : Record) (value : HandlerValue) (e : PyError) :
      Follow cfg (.storing job value) (.storeDone (some e)) (.failing job e)

/-- Where a worker writes an outcome next. -/
def Pc.deciding : Pc → Bool
  | .storing _ _ | .failing _ _ => true
  | _ => false

theorem Pc.busy_of_deciding {pc : Pc} (deciding : pc.deciding = true) : pc.stage ≠ .idle := by
  cases pc with
  | storing job value => simp [Pc.stage]
  | failing job e => simp [Pc.stage]
  | _ => cases deciding

theorem follow_of_execute {locks : LockTable} {pc : Pc} {act : WorkerAct} {m : Move}
    (moved : executeJob cfg locks w pc act = some m) (deciding : m.pc.deciding = true) :
    Follow cfg pc act m.pc := by
  unfold executeJob at moved
  split at moved
  · cases moved
    cases deciding
  · cases moved
    cases deciding
  · split at moved
    · cases moved
      cases deciding
    · rename_i e raises
      cases moved
      exact .unknown raises
  · cases moved
    exact .returned _ _ _
  · cases moved
    exact .raised _ _ _
  · cases moved
    cases deciding
  · cases moved
    cases deciding
  · cases moved
    exact .unstored _ _ _
  · cases moved
    cases deciding
  · cases moved
    cases deciding
  · rename_i raised raises
    cases moved
    cases raised <;> cases deciding
  · cases moved

theorem follow_of_move {act : WorkerAct} {m : Move} (moved : s.runWorker cfg w act = some m)
    (deciding : m.pc.deciding = true) : Follow cfg (s.pc w) act m.pc := by
  have advance := Sys.advance moved
  rw [Sys.runWorker] at moved
  generalize s.pc w = pc at moved advance ⊢
  cases advance with
  | rests _ _ _ _ idle' => exact absurd idle' (Pc.busy_of_deciding deciding)
  | @carries _ pc' _ _ payload running _ =>
      have execute : executeJob cfg s.locks w pc act = some { pc := pc', locks := s.locks } := by
        rw [← moved]
        cases pc <;> first | rfl | cases running
      exact follow_of_execute execute deciding
  | abandons leaves => cases leaves <;> cases deciding
  | unlocks id raised raises => cases raised <;> cases deciding
  | _ => cases deciding

/-! ## Along a step -/

theorem Attempted.mono (weaker : stored' → stored) {k : ℕ} {last : Option String}
    (failed : Attempted h j body stored k last) : Attempted h j body stored' k last := by
  induction failed with
  | start => exact .start
  | raised _ ends ih => exact ih.raised ends
  | unstored _ ends fault ih => exact ih.unstored ends fun now => fault (weaker now)

theorem Told.mono (weaker : stored' → stored) (told : Told h j body stored r) :
    Told h j body stored' r := by
  cases told with
  | undone undone failed => exact .undone undone (failed.mono weaker)
  | done done attempt failed ends result =>
      exact .done done attempt (failed.mono weaker) ends result

theorem Told.failed (told : Told h j body stored r) (undone : r.status ≠ .done) :
    Attempted h j body stored r.attempt r.error := by
  cases told with
  | undone _ failed => exact failed
  | done done _ _ _ _ => exact absurd done undone

/-- A statement that writes no outcome leaves what a row says of its attempts. -/
theorem Told.keeps (told : Told h j body stored r) (undone : r.status ≠ .done)
    (undone' : r'.status ≠ .done) (attempt : r'.attempt = r.attempt) (error : r'.error = r.error) :
    Told h j body stored r' := by
  refine .undone undone' ?_
  rw [attempt, error]
  exact told.failed undone

/-- Only the statements that write an outcome write the error of a row. -/
theorem error_of_undecided (run : Runs cfg t₀ .empty t s) (taken : step cfg s e = some s')
    (undecided : decided cfg s e j = none) (row : s.db.jobs.row j = some r)
    (row' : s'.db.jobs.row j = some r') : r'.error = r.error := by
  have change := row_step run taken row
  rw [row'] at change
  cases change with
  | dies commits _ _ _ _ => cases undecided.symm.trans (decided_some commits rfl)
  | retries commits _ _ _ _ => cases undecided.symm.trans (decided_some commits rfl)
  | _ => rfl

/-- No outcome is written of a job that is executed afterwards. -/
theorem undecided_of_executes (run : Runs cfg t₀ .empty t s) (taken : step cfg s e = some s')
    (executes : Executes s' w j) : decided cfg s e j = none := by
  cases decides : decided cfg s e j with
  | none => rfl
  | some o => exact absurd executes (not_executes_of_decided run taken decides w)

/-- A claim reads the record of a job from its row. -/
theorem record_of_row (run : Runs cfg t₀ .empty t s) (row : s.db.jobs.row j = some r)
    (pending : r.status = .pending) :
    ∃ body, enqueued cfg j t = some body ∧
      Record.ofRow j r = body.record j r.attempt r.error r.runAt := by
  obtain ⟨body, at_, posted, -, same⟩ := posted_of_row run j r row
  have unowned := (consistent_of_run run j r row).unowned pending
  refine ⟨body, posted, ?_⟩
  simp [Record.ofRow, JobCreate.record, same.type, same.payload, same.priority, same.maxRetries,
    pending, unowned]

/-- The error that a statement writes to a row. -/
def Statement.error? : Statement → Option String
  | .bury _ _ _ error _ _ => some error
  | .retry _ error _ => some error
  | _ => none

theorem error_handleFailure (cfg : Config) (job : Record) (error : PyError) (w : WorkerId) :
    (handleFailure cfg job error w).error? = some error.text := by
  unfold handleFailure
  split <;> rfl

/-- A failure is written by a worker in `_handle_failure`, with the error that it was given. -/
theorem failure_author (taken : step cfg s e = some s') {st : Statement} {text : String}
    (commits : committed cfg s e = some st) (byWorker : st.byWorker = true)
    (writes : st.error? = some text) :
    ∃ w job error, s.pc w = .failing job error ∧ st.decides = some (job.id, .failure) ∧
      text = error.text := by
  have sends := sends_of_committed taken commits byWorker
  cases sends with
  | @failed w job error at_ =>
      rw [error_handleFailure] at writes
      exact ⟨w, job, error, at_, decides_handleFailure cfg job error w,
        (Option.some.inj writes).symm⟩
  | _ => cases writes

/-- A success is written by a worker that has the result to store. -/
theorem success_author (taken : step cfg s e = some s') {value : Option Json}
    (commits : committed cfg s e = some (.storeDone value w j)) :
    ∃ job, s.pc w = .storing job (.storable value) ∧ job.id = j := by
  have sends := sends_of_committed taken commits rfl
  generalize same : Statement.storeDone value w j = st at sends
  cases sends with
  | @done w' job value' at_ =>
      obtain ⟨rfl, rfl, rfl⟩ : value = value' ∧ w = w' ∧ j = job.id := by simpa using same
      exact ⟨job, at_, rfl⟩
  | failed at_ =>
      unfold handleFailure at same
      split at same <;> cases same
  | _ => cases same

/-- What `Story` says of a job in execution, by its row. -/
theorem Story.current (run : Runs cfg t₀ .empty t s) (story : Story cfg registry t s)
    (has : (s.stages w).job? = some job) (row : s.db.jobs.row job.id = some r)
    (posted : enqueued cfg job.id t = some body) :
    job = body.record job.id r.attempt r.error job.runAt ∧ job.type = body.type ∧
      Attempted (registry.handler cfg.repr body.type) job.id body
        (EachStep (StoresJob job.id) t) r.attempt r.error := by
  obtain ⟨body', posted', same, failed, error⟩ := story.record w job has
  cases posted.symm.trans posted'
  have attempt := ((tracked_of_run run w job has).2 r row).attempt
  rw [attempt, error r row]
  exact ⟨same, by rw [same]; rfl, failed⟩

/-- A failure is one attempt more. -/
theorem Story.fails (run : Runs cfg t₀ .empty t s) (story : Story cfg registry t s)
    {error : PyError} (at_ : s.pc w = .failing job error) (row : s.db.jobs.row job.id = some r)
    (posted : enqueued cfg job.id t = some body) :
    Attempted (registry.handler cfg.repr body.type) job.id body
      (EachStep (StoresJob job.id) t) (r.attempt + 1) (some error.text) := by
  have has : (s.stages w).job? = some job := (StatusWrite.failed at_).job
  obtain ⟨same, type, failed⟩ := story.current run has row posted
  have reason := story.failing w job error at_
  rw [type, same] at reason
  rcases reason with ⟨fuel, ends⟩ | ⟨fuel, value, ends, fault⟩
  · exact failed.raised ends
  · exact failed.unstored ends fault

/-- What a row tells stays true, or becomes true, when a statement reaches it. -/
theorem told_of_change (run : Runs cfg t₀ .empty t s) (story : Story cfg registry t s)
    (taken : step cfg s e = some s') (row : s.db.jobs.row j = some r)
    (posted : enqueued cfg j t = some body) (change : RowStep cfg t s e j r (some r')) :
    Told (registry.handler cfg.repr body.type) j body (EachStep (StoresJob j) t) r' := by
  have told := story.row j r body row posted
  cases change with
  | keeps _ _ => exact told
  | claims _ pending => exact told.keeps (by simp [pending]) (by simp [Job.setClaimed]) rfl rfl
  | marks _ _ _ holds => exact told.keeps holds.live.not_done (by simp [Job.setRunning]) rfl rfl
  | @succeeds w _ value commits _ _ _ =>
      obtain ⟨job, at_, rfl⟩ := success_author taken commits
      obtain ⟨fuel, v, ends, stores⟩ := story.storing w job _ at_
      have has : (s.stages w).job? = some job := (StatusWrite.done at_).job
      obtain ⟨same, type, failed⟩ := story.current run has row posted
      rw [type, same] at ends
      exact .done rfl rfl failed ends (stores value rfl)
  | @dies w _ payload text commits _ _ _ _ =>
      obtain ⟨w, job, error, at_, decides, rfl⟩ := failure_author taken commits rfl rfl
      obtain rfl : j = job.id := by simpa [Statement.decides] using decides
      exact .undone (by simp [Job.setDead]) (story.fails run at_ row posted)
  | @retries w _ backoff text commits _ _ _ _ =>
      obtain ⟨w, job, error, at_, decides, rfl⟩ := failure_author taken commits rfl rfl
      obtain rfl : j = job.id := by simpa [Statement.decides] using decides
      exact .undone (by simp [Job.setRetry]) (story.fails run at_ row posted)
  | beats _ _ running =>
      exact told.keeps (by simp [running]) (by simp [Job.setHeartbeat, running]) rfl rfl
  | reclaims _ stale =>
      have live : r.Live := .inr (Job.isStale_iff.1 stale).1
      exact told.keeps live.not_done (by simp [Job.setReclaimed]) rfl rfl

/-- What is known of a record holds of it after a step in which its worker keeps it. -/
theorem record_kept (run : Runs cfg t₀ .empty t s) (story : Story cfg registry t s)
    (taken : step cfg s e = some s') (has : (s.stages w).job? = some job)
    (has' : (s'.stages w).job? = some job) :
    ∃ body, enqueued cfg job.id ((s, e) :: t) = some body ∧
      job = body.record job.id job.attempt job.error job.runAt ∧
      Attempted (registry.handler cfg.repr body.type) job.id body
        (EachStep (StoresJob job.id) ((s, e) :: t)) job.attempt job.error ∧
      ∀ r, s'.db.jobs.row job.id = some r → r.error = job.error := by
  obtain ⟨body, posted, same, failed, error⟩ := story.record w job has
  have old := (tracked_of_run run w job has).1
  refine ⟨body, (enqueued_old old).trans posted, same, failed.mono And.right, fun r' row' => ?_⟩
  have after := row'
  rw [step_db taken] at after
  obtain ⟨r, row, -⟩ := row_before _ old after
  have undecided := undecided_of_executes run taken ⟨job, has', rfl⟩
  rw [error_of_undecided run taken undecided row row', error r row]

theorem claiming_of_claim {plan : ClaimPlan} {m : Move}
    (moved : s.runWorker cfg w (.claim plan) = some m) :
    ∃ snapshot startedAt, s.pc w = .claiming snapshot startedAt := by
  rw [Sys.runWorker] at moved
  cases at_ : s.pc w with
  | claiming snapshot startedAt => exact ⟨snapshot, startedAt, rfl⟩
  | storing job value =>
      rw [at_] at moved
      cases value <;> cases moved
  | _ =>
      rw [at_] at moved
      cases moved

theorem handling_of_ends {payload : Json} {outcome : HandlerOutcome} {m : Move}
    (moved : s.runWorker cfg w (.handlerEnds payload outcome) = some m) :
    ∃ job, s.pc w = .handling job := by
  rw [Sys.runWorker] at moved
  cases at_ : s.pc w with
  | handling job => exact ⟨job, rfl⟩
  | storing job value =>
      rw [at_] at moved
      cases value <;> cases moved
  | _ =>
      rw [at_] at moved
      cases moved

/-- A worker that has claimed a row has read a pending one. -/
theorem claimed_of_move {plan : ClaimPlan} {m : Move}
    (moved : s.runWorker cfg w (.claim plan) = some m) (has : m.pc.stage.job? = some job) :
    ∃ id r startedAt, s.db.jobs.row id = some r ∧ r.status = .pending ∧ job = .ofRow id r ∧
      m.statement = some (.claim w id startedAt) := by
  obtain ⟨snapshot, startedAt, at_⟩ := claiming_of_claim moved
  have advance := Sys.advance moved
  rw [at_] at advance
  cases advance with
  | @claims _ _ _ id r admissible returned row =>
      obtain ⟨-, -, stillEligible⟩ := claim_facts admissible returned
      obtain ⟨r', row', pending, -⟩ := eligible_iff.1 stillEligible
      cases row.symm.trans row'
      cases has
      exact ⟨id, r, startedAt, row, pending, rfl, rfl⟩
  | rests _ noClaim _ _ _ => exact absurd rfl (noClaim plan)
  | carries _ running _ => cases running
  | abandons leaves => cases leaves
  | findsNone _ _ => cases has

/-- What is known of a record that has just been read from its row. -/
theorem record_claimed (run : Runs cfg t₀ .empty t s) (story : Story cfg registry t s)
    (taken : step cfg s e = some s') {startedAt : Time} (row : s.db.jobs.row j = some r)
    (pending : r.status = .pending) (commits : committed cfg s e = some (.claim w j startedAt)) :
    ∃ body, enqueued cfg j ((s, e) :: t) = some body ∧
      Record.ofRow j r = body.record j r.attempt r.error r.runAt ∧
      Attempted (registry.handler cfg.repr body.type) j body
        (EachStep (StoresJob j) ((s, e) :: t)) r.attempt r.error ∧
      ∀ r', s'.db.jobs.row j = some r' → r'.error = r.error := by
  obtain ⟨body, posted, same⟩ := record_of_row run row pending
  have failed := (story.row j r body row posted).failed (by simp [pending])
  exact ⟨body, (enqueued_old (SerialTable.lt_next row)).trans posted, same, failed.mono And.right,
    fun r' row' => error_of_undecided run taken (decided_none commits rfl) row row'⟩

/-- What is known of a record after a step, which has brought it or left it. -/
theorem record_step (run : Runs cfg t₀ .empty t s) (story : Story cfg registry t s)
    (taken : step cfg s e = some s') (follows : Follows cfg registry t s e)
    (has' : (s'.stages w).job? = some job) :
    ∃ body, enqueued cfg job.id ((s, e) :: t) = some body ∧
      job = body.record job.id job.attempt job.error job.runAt ∧
      Attempted (registry.handler cfg.repr body.type) job.id body
        (EachStep (StoresJob job.id) ((s, e) :: t)) job.attempt job.error ∧
      ∀ r, s'.db.jobs.row job.id = some r → r.error = job.error := by
  cases worker_step taken w with
  | @moves act m now moved pc _ =>
      subst now
      have after := has'
      rw [Sys.stages, pc] at after
      rcases record_of_move moved after with
        ⟨plan, -, -, rfl, -, -⟩ | ⟨before, was, -, same⟩
      · obtain ⟨id, r, startedAt, row, pending, rfl, sends⟩ := claimed_of_move moved after
        exact record_claimed run story taken row pending ((committed_of_moved moved).trans sends)
      · obtain rfl : before = job := by
          rw [same]
          cases act with
          | handlerEnds payload outcome =>
              obtain ⟨job, at_⟩ := handling_of_ends moved
              obtain rfl : job = before := by
                rw [at_] at was
                exact Option.some.inj was
              rw [(follows w job payload outcome rfl at_).1]
              rfl
          | _ => rfl
        exact record_kept run story taken was has'
  | stays other _ pc _ =>
      refine record_kept run story taken ?_ has'
      rw [Sys.stages, ← pc]
      exact has'
  | spawns _ pc _ =>
      rw [Sys.stages, pc] at has'
      cases has'
  | dies _ pc _ =>
      rw [Sys.stages, pc] at has'
      cases has'

/-- What is known of the program points after a worker's own step. -/
theorem story_move (story : Story cfg registry t s)
    (serves : cfg.Serves registry) {act : WorkerAct} {m : Move}
    (follows : Follows cfg registry t s (.worker w act)) (moved : s.runWorker cfg w act = some m) :
    (∀ job value, m.pc = .storing job value →
        ∃ fuel v, (registry.handler cfg.repr job.type).run fuel job = some (.ok v) ∧
          ∀ x, value = .storable x → x = some v) ∧
      ∀ job e, m.pc = .failing job e →
        (registry.handler cfg.repr job.type).FailsWith job
          (EachStep (StoresJob job.id) ((s, .worker w act) :: t)) e := by
  constructor
  · intro job value at_
    have follow := follow_of_move moved (by rw [at_]; rfl)
    rw [at_] at follow
    generalize here : s.pc w = pc at follow
    cases follow with
    | returned before payload value =>
        obtain ⟨rfl, ends⟩ := follows w before payload _ rfl here
        cases ends with
        | returns ends => exact ⟨_, _, ends, fun x same => by cases same; rfl⟩
        | rejected ends => exact ⟨_, _, ends, fun x same => by cases same⟩
  · intro job e at_
    have follow := follow_of_move moved (by rw [at_]; rfl)
    rw [at_] at follow
    generalize here : s.pc w = pc at follow
    cases follow with
    | raised before payload e =>
        obtain ⟨rfl, ends⟩ := follows w before payload _ rfl here
        cases ends with
        | raises ends => exact .inl ⟨_, ends⟩
    | unknown raises => exact .inl ⟨0, run_of_unregistered serves raises 0 job⟩
    | unstored job value e =>
        obtain ⟨fuel, v, ends, -⟩ := story.storing w job value here
        exact .inr ⟨fuel, v, ends, fun stored => stored.1 w job value e rfl here rfl⟩

/-- **Rows, records and program points tell the same story.** -/
theorem story_of_run (serves : cfg.Serves registry) (run : Runs cfg t₀ .empty t s) :
    EachStep (Follows cfg registry) t → Story cfg registry t s := by
  refine run.invariant (P := fun t s => EachStep (Follows cfg registry) t →
    Story cfg registry t s) ?_ ?_
  · intro _
    exact
      { row := fun j r body row => by cases row
        record := fun w job has => by cases has
        storing := fun w job value at_ => by cases at_
        failing := fun w job e at_ => by cases at_ }
  rintro t s e s' run ih taken ⟨follows, earlier⟩
  have story := ih earlier
  refine ⟨fun j r' body row' posted' => ?_, fun w job has' => ?_, fun w job value at_ => ?_,
    fun w job error at_ => ?_⟩
  · -- the rows
    cases row : s.db.jobs.row j with
    | some r =>
        have posted := (enqueued_old (SerialTable.lt_next row)).symm.trans posted'
        have change := row_step run taken row
        rw [row'] at change
        exact (told_of_change run story taken row posted change).mono And.right
    | none =>
        rw [step_db taken] at row'
        obtain ⟨body', -, -, rfl⟩ := row_new row row'
        exact .undone (by simp [Job.ofCreate]) .start
  · exact record_step run story taken follows has'
  · cases worker_step taken w with
    | moves now moved pc _ =>
        subst now
        exact (story_move story serves follows moved).1 job value (pc.symm.trans at_)
    | stays _ _ pc _ => exact story.storing w job value (pc.symm.trans at_)
    | spawns _ pc _ => cases pc.symm.trans at_
    | dies _ pc _ => cases pc.symm.trans at_
  · cases worker_step taken w with
    | moves now moved pc _ =>
        subst now
        exact (story_move story serves follows moved).2 job error (pc.symm.trans at_)
    | stays _ _ pc _ =>
        rcases story.failing w job error (pc.symm.trans at_) with raised | ⟨fuel, v, ends, fault⟩
        · exact .inl raised
        · exact .inr ⟨fuel, v, ends, fun stored => fault stored.2⟩
    | spawns _ pc _ => cases pc.symm.trans at_
    | dies _ pc _ => cases pc.symm.trans at_

/-! ## The row and the loop -/

theorem tryJob_mono {fuel more : ℕ} (le : fuel ≤ more) (k : ℕ) (last : Option String)
    (out : Except String Json) (ends : tryJob h fuel j body k last = some out) :
    tryJob h more j body k last = some out := by
  simp only [tryJob, Option.map_eq_some_iff] at ends ⊢
  obtain ⟨v, ran, same⟩ := ends
  exact ⟨v, h.mono le ran, same⟩

/-- An attempt, whenever the job was due. -/
theorem tryJob_of_run (timeless : h.Timeless) {fuel k : ℕ} {last : Option String} {runAt : Time}
    {out : Except PyError Json} (ran : h.run fuel (body.record j k last runAt) = some out) :
    tryJob h fuel j body k last = some (out.mapError PyError.text) := by
  have due : h.run fuel (body.record j k last runAt) = h.run fuel (body.record j k last 0) :=
    timeless fuel (body.record j k last 0) runAt
  rw [tryJob, ← due, ran]
  rfl

/-- Failures of a job whose results are stored are failures of the loop. -/
theorem Attempted.loop (timeless : h.Timeless) (always : stored) {k : ℕ} {last : Option String}
    (failed : Attempted h j body stored k last) :
    ∃ fuel, RetryLoop.Failed (tryJob h fuel j body) (fun _ => false) k last := by
  induction failed with
  | start => exact ⟨0, .start⟩
  | @raised k fuel last runAt e _ ends ih =>
      obtain ⟨fuel', failed⟩ := ih
      have failed := failed.mono (tryJob_mono (le_max_left fuel' fuel))
      have attempt := tryJob_mono (le_max_right fuel' fuel) _ _ _ (tryJob_of_run timeless ends)
      exact ⟨max fuel' fuel, failed.again attempt rfl⟩
  | unstored _ _ fault _ => exact absurd always fault

/-- A final row has used no more attempts than its budget, and a dead one all of them. -/
theorem budget_of_final (run : Runs cfg t₀ .empty t s) (row : s.db.jobs.row j = some r) :
    r.attempt ≤ max 1 r.maxRetries ∧ (r.status = .dead → r.attempt = max 1 r.maxRetries) := by
  have balanced := (balanced_of_run run).1 j r row
  have sound := ledger_sound run row
  rw [balanced.attempt]
  refine ⟨sound.bounded, fun dead => ?_⟩
  have closed := sound.closed (mt balanced.live_iff.2 (Job.not_live_of_final (.inr dead)))
  rcases closed with ⟨rest, shape, -⟩ | ⟨-, spent⟩
  · have member : RetryBudget.Outcome.success ∈ outcomes cfg j t := by
      rw [show outcomes cfg j t = _ from shape]
      exact List.mem_cons_self
    cases dead.symm.trans (balanced.done_iff.2 member)
  · exact spent

/-- A row that is done or dead is the end of the loop. -/
theorem loop_of_told (run : Runs cfg t₀ .empty t s) (timeless : h.Timeless) (always : stored)
    (row : s.db.jobs.row j = some r) (budget : r.maxRetries = body.maxRetries)
    (told : Told h j body stored r) (final : r.status = .done ∨ r.status = .dead) :
    ∃ fuel result, runJob h fuel j body = some result ∧ r.Records result := by
  obtain ⟨bounded, spent⟩ := budget_of_final run row
  rw [budget] at bounded spent
  cases told with
  | undone undone failed =>
      have dead := final.resolve_left undone
      have noResult := (consistent_of_run run j r row).no_result undone
      have spent := spent dead
      generalize attempts : r.attempt = n at failed spent
      generalize text : r.error = last at failed
      cases failed with
      | start => omega
      | @raised k fuel last _ e before ends =>
          obtain ⟨fuel', failed⟩ := before.loop timeless always
          have failed := failed.mono (tryJob_mono (le_max_left fuel' fuel))
          have attempt := tryJob_mono (le_max_right fuel' fuel) _ _ _ (tryJob_of_run timeless ends)
          refine ⟨max fuel' fuel, .gaveUp k e.text, ?_, dead, attempts, noResult, text⟩
          refine RetryLoop.givesUp_iff.2 ⟨by omega, last, failed, attempt, .inr (by omega)⟩
      | unstored _ _ fault => exact absurd always fault
  | @done k fuel _ value done attempt failed ends result =>
      obtain ⟨fuel', failed⟩ := failed.loop timeless always
      have failed := failed.mono (tryJob_mono (le_max_left fuel' fuel))
      have last := tryJob_mono (le_max_right fuel' fuel) _ _ _ (tryJob_of_run timeless ends)
      refine ⟨max fuel' fuel, .succeeded k value r.error, ?_, done, attempt, result, rfl⟩
      exact RetryLoop.succeeds_iff.2 ⟨by omega, failed, last⟩

/-- The row of a final job is the end of its loop. -/
theorem ends_of_final (run : Runs cfg t₀ .empty t s) (serves : cfg.Serves registry)
    (timeless : registry.Timeless) (follows : EachStep (Follows cfg registry) t)
    (stores : EachStep (StoresJob j) t) (row : s.db.jobs.row j = some r)
    (final : r.status = .done ∨ r.status = .dead) (posted : enqueued cfg j t = some body) :
    ∃ fuel result, runJob (registry.handler cfg.repr body.type) fuel j body = some result ∧
      r.Records result := by
  obtain ⟨body', at_, posted', -, same⟩ := posted_of_row run j r row
  cases posted.symm.trans posted'
  have told := (story_of_run serves run follows).row j r body row posted
  exact loop_of_told run (timeless.handler _ _) stores row same.maxRetries told final

/-- With more rounds for its handler a job ends the same. -/
theorem runJob_mono {fuel more : ℕ} (le : fuel ≤ more) {result : RetryLoop.Result Json String}
    (ends : runJob h fuel j body = some result) : runJob h more j body = some result :=
  RetryLoop.attempts_mono (tryJob_mono le) ends

theorem runJob_unique {fuel fuel' : ℕ} {result result' : RetryLoop.Result Json String}
    (ends : runJob h fuel j body = some result) (ends' : runJob h fuel' j body = some result') :
    result = result' := by
  have ends := runJob_mono (le_max_left fuel fuel') ends
  have ends' := runJob_mono (le_max_right fuel fuel') ends'
  exact Option.some.inj (ends.symm.trans ends')

/-- The end of a loop is all that two rows need to have in common. -/
theorem Job.Records.agree {result : RetryLoop.Result Json String} (records : r.Records result)
    (records' : r'.Records result) :
    r.status = r'.status ∧ r.attempt = r'.attempt ∧ r.result = r'.result ∧ r.error = r'.error := by
  cases result with
  | succeeded k value last =>
      obtain ⟨status, attempt, value, error⟩ := records
      obtain ⟨status', attempt', value', error'⟩ := records'
      exact ⟨status.trans status'.symm, attempt.trans attempt'.symm, value.trans value'.symm,
        error.trans error'.symm⟩
  | gaveUp k error =>
      obtain ⟨status, attempt, value, error⟩ := records
      obtain ⟨status', attempt', value', error'⟩ := records'
      exact ⟨status.trans status'.symm, attempt.trans attempt'.symm, value.trans value'.symm,
        error.trans error'.symm⟩

/-! ## A run with a handler that fails twice -/

/-- The exception of `flaky` on this attempt. -/
def flakyError (attempt : ℕ) : PyError where
  name := "RuntimeError"
  message := "flaky handler: intentional failure on attempt " ++ toString attempt

theorem flaky_early (fuel : ℕ) (early : job.attempt < 2) :
    Builtin.flaky.run fuel job = some (.error (flakyError job.attempt)) :=
  congrArg some (if_pos early)

theorem flaky_later (fuel : ℕ) (later : 2 ≤ job.attempt) :
    Builtin.flaky.run fuel job = some (.ok
      (.obj [("ok", .bool true), ("succeeded_on_attempt", .int job.attempt)])) :=
  congrArg some (if_neg (Nat.not_lt.2 later))

/-- The outcome is that of `flaky`, on a job without payload. -/
def endsAsFlaky (job : Record) : Json → HandlerOutcome → Bool
  | .obj [], .raises e =>
      job.payload.isBare && job.attempt < 2 && e.name = (flakyError job.attempt).name &&
        e.message = (flakyError job.attempt).message
  | .obj [], .returns (.storable (some (.obj [("ok", .bool true),
      ("succeeded_on_attempt", .int q)]))) =>
      job.payload.isBare && 2 ≤ job.attempt && q = job.attempt
  | _, _ => false

theorem ends_of_endsAsFlaky {payload : Json} {outcome : HandlerOutcome}
    (ends : endsAsFlaky job payload outcome = true) :
    payload = job.payload ∧ Builtin.flaky.Ends job outcome := by
  unfold endsAsFlaky at ends
  split at ends
  · rename_i e
    simp only [Bool.and_eq_true, decide_eq_true_eq, Json.isBare_iff] at ends
    obtain ⟨⟨⟨bare, first⟩, name⟩, message⟩ := ends
    have same : flakyError job.attempt = e := by
      rw [PyError.mk.injEq]
      exact ⟨name.symm, message.symm⟩
    have raises : Builtin.flaky.run 0 job = some (.error e) := by
      rw [← same]
      exact flaky_early 0 first
    exact ⟨bare.symm, .raises raises⟩
  · simp only [Bool.and_eq_true, decide_eq_true_eq, Json.isBare_iff] at ends
    obtain ⟨⟨bare, later⟩, rfl⟩ := ends
    exact ⟨bare.symm, .returns (flaky_later 0 later)⟩
  · cases ends

def demoFlaky (baseDelay : Time) : Config := { demo with baseDelay, registry := ["flaky"] }

def demoFlakyRegistry : Registry := (∅ : Registry).register "flaky" Builtin.flaky

def demoFlakyJob : JobCreate := { demoJob with type := "flaky" }

def JobCreate.isDemoFlaky (body : JobCreate) : Bool :=
  body.type = "flaky" && body.payload.isBare && body.priority.1 = 5 && body.maxRetries = 3 &&
    body.runAt.isNone

theorem JobCreate.eq_of_isDemoFlaky (is_ : body.isDemoFlaky = true) : body = demoFlakyJob := by
  simp only [isDemoFlaky, Bool.and_eq_true, decide_eq_true_eq, Json.isBare_iff,
    Option.isNone_iff_eq_none] at is_
  obtain ⟨⟨⟨⟨type, bare⟩, five⟩, budget⟩, due⟩ := is_
  cases body
  simp_all [demoFlakyJob, demoJob, Subtype.ext_iff]

/-- Every handler that ends does so as `flaky`, and no `'done'` UPDATE raises. -/
def allFlaky (t : History Sys Event) : Bool :=
  t.all fun x =>
    match x.2 with
    | .worker w (.handlerEnds payload outcome) =>
        match x.1.pc w with
        | .handling job => job.type = "flaky" && endsAsFlaky job payload outcome
        | _ => false
    | .worker _ (.storeDone (some _)) => false
    | _ => true

theorem follows_of_allFlaky (found : registry.lookup "flaky" = some Builtin.flaky)
    (all : allFlaky t = true) :
    EachStep (Follows cfg registry) t ∧ ∀ j, EachStep (StoresJob j) t := by
  induction t with
  | nil => exact ⟨trivial, fun _ => trivial⟩
  | cons x t ih =>
      obtain ⟨s, e⟩ := x
      simp only [allFlaky, List.all_cons, Bool.and_eq_true] at all
      obtain ⟨follows, stores⟩ := ih all.2
      refine ⟨⟨?_, follows⟩, fun j => ⟨?_, stores j⟩⟩
      · rintro w job payload outcome rfl at_
        have now := all.1
        simp only [at_, Bool.and_eq_true, decide_eq_true_eq] at now
        rw [now.1, handler_of_lookup _ found]
        exact ends_of_endsAsFlaky now.2
      · rintro w job value error rfl _
        cases all.1

/-- A claim of job 1 by a worker that then runs its handler to this outcome. -/
def demoHandle (w : WorkerId) (outcome : HandlerOutcome) : List Event :=
  demoClaim w [1] (some 1) ++
    [.worker w (.markRunning false), .worker w .startHandler,
      .worker w (.handlerEnds (.obj []) outcome)]

def demoFlakyFail (w : WorkerId) (attempt : ℕ) : List Event :=
  demoHandle w (.raises (flakyError attempt)) ++
    [.worker w (.handleFailure false), .worker w (.unlock false), .tick 10]

/-- A job of type `flaky` that three workers attempt in turn. -/
def demoFlakyEvents (first second third : WorkerId) : List Event :=
  [.createJob demoFlakyJob, .start 0, .worker ⟨0, 0⟩ (.connect true),
      .worker ⟨0, 1⟩ (.connect true)] ++
    demoFlakyFail first 0 ++ demoFlakyFail second 1 ++
    demoHandle third (.returns (.storable (some
      (.obj [("ok", .bool true), ("succeeded_on_attempt", .int 2)])))) ++
    [.worker third (.storeDone none), .worker third (.unlock false)]

/-- The job is done at its third attempt, and all handlers were `flaky`. -/
def demoFlakyEnds (cfg : Config) (out : History Sys Event × Sys) : Bool :=
  allFlaky out.1 && ((out.2.db.jobs.row 1).any fun r => r.status = .done) &&
    (enqueued cfg 1 out.1).any JobCreate.isDemoFlaky

theorem demoFlaky_run (cfg : Config) (found : registry.lookup "flaky" = some Builtin.flaky)
    (events : List Event)
    (replayed : (exec (step cfg) [] (Sys.boot 0 .empty) events).any (demoFlakyEnds cfg) = true) :
    ∃ t s r, Runs cfg 0 .empty t s ∧ s.db.jobs.row 1 = some r ∧ r.status = .done ∧
      enqueued cfg 1 t = some demoFlakyJob ∧ EachStep (Follows cfg registry) t ∧
      ∀ j, EachStep (StoresJob j) t := by
  obtain ⟨t, s, run, after⟩ := run_of_exec events _ replayed
  simp only [demoFlakyEnds, Bool.and_eq_true, Option.any_eq_true, decide_eq_true_eq] at after
  obtain ⟨⟨all, r, row, done⟩, body, posted, is_⟩ := after
  cases JobCreate.eq_of_isDemoFlaky is_
  obtain ⟨follows, stores⟩ := follows_of_allFlaky found all
  exact ⟨t, s, r, run, row, done, posted, follows, stores⟩

theorem demoFlaky_found : demoFlakyRegistry.lookup "flaky" = some Builtin.flaky := by
  simp [demoFlakyRegistry, lookup_register]

theorem demoFlaky_timeless : demoFlakyRegistry.Timeless := by
  refine fun jobType fn found => ?_
  rw [demoFlakyRegistry, lookup_register] at found
  split at found
  · cases found
    exact fun _ _ _ => rfl
  · cases found

end

/-- **A job's life is its retry loop.**  Whatever the interleaving of workers, crashes, sweeps
and retries, where handlers look at the job alone and no `'done'` UPDATE of it raises, the row
of a job that is not final has the attempts and the error that the loop has reached, and the
row of a final one has the attempts, the result and the error with which the loop ends. -/
theorem row_follows_loop (cfg : Config) (registry : Registry) (t₀ : Time) {t : History Sys Event}
    {s : Sys} (run : Runs cfg t₀ .empty t s) (serves : cfg.Serves registry)
    (timeless : registry.Timeless) (follows : EachStep (Follows cfg registry) t) (j : JobId)
    (stores : EachStep (StoresJob j) t) (r : Job) (row : s.db.jobs.row j = some r) :
    ∃ body, enqueued cfg j t = some body ∧
      (r.Live → r.attempt < max 1 body.maxRetries ∧
        ∃ fuel, RetryLoop.Failed (tryJob (registry.handler cfg.repr body.type) fuel j body)
          (fun _ => false) r.attempt r.error) ∧
      (r.status = .done ∨ r.status = .dead →
        ∃ fuel result, runJob (registry.handler cfg.repr body.type) fuel j body = some result ∧
          r.Records result) := by
  obtain ⟨body, at_, posted, -, same⟩ := posted_of_row run j r row
  refine ⟨body, posted, fun live => ⟨?_, ?_⟩, fun final =>
    ends_of_final run serves timeless follows stores row final posted⟩
  · have balanced := (balanced_of_run run).1 j r row
    rw [balanced.attempt, ← same.maxRetries]
    exact (balanced.live_iff.1 live).2
  · have told := (story_of_run serves run follows).row j r body row posted
    exact (told.failed live.not_done).loop (timeless.handler _ _) stores

theorem row_follows_loop_flaky :
    ∃ t s r body fuel result, Runs (demoFlaky 5) 0 .empty t s ∧ s.db.jobs.row 1 = some r ∧
      r.status = .done ∧
      runJob (demoFlakyRegistry.handler demo.repr body.type) fuel 1 body = some result ∧
      r.Records result := by
  obtain ⟨t, s, r, run, row, done, -, follows, stores⟩ :=
    demoFlaky_run (demoFlaky 5) demoFlaky_found (demoFlakyEvents ⟨0, 0⟩ ⟨0, 0⟩ ⟨0, 0⟩)
      (by decide +kernel)
  obtain ⟨body, -, -, final⟩ := row_follows_loop (demoFlaky 5) demoFlakyRegistry 0 run rfl
    demoFlaky_timeless follows 1 (stores 1) r row
  obtain ⟨fuel, result, ends, records⟩ := final (.inl done)
  exact ⟨t, s, r, body, fuel, result, run, row, done, ends, records⟩

/-- **The interleaving does not show.**  Two systems, with any numbers of workers and any
backoff, whose handlers are those of one registry and look at the job alone, and no `'done'`
UPDATE of the job raises: if both finish it they finish it the same way, with the same status,
number of attempts, result and error. -/
theorem final_rows_agree (cfg cfg' : Config) (registry : Registry) (t₀ t₀' : Time)
    (repr : cfg.repr = cfg'.repr) (serves : cfg.Serves registry) (serves' : cfg'.Serves registry)
    (timeless : registry.Timeless) {t t' : History Sys Event} {s s' : Sys}
    (run : Runs cfg t₀ .empty t s) (run' : Runs cfg' t₀' .empty t' s')
    (follows : EachStep (Follows cfg registry) t) (follows' : EachStep (Follows cfg' registry) t')
    (j : JobId) (stores : EachStep (StoresJob j) t) (stores' : EachStep (StoresJob j) t')
    (body : JobCreate) (posted : enqueued cfg j t = some body)
    (posted' : enqueued cfg' j t' = some body) (r r' : Job) (row : s.db.jobs.row j = some r)
    (row' : s'.db.jobs.row j = some r') (final : r.status = .done ∨ r.status = .dead)
    (final' : r'.status = .done ∨ r'.status = .dead) :
    r.status = r'.status ∧ r.attempt = r'.attempt ∧ r.result = r'.result ∧ r.error = r'.error := by
  obtain ⟨fuel, result, ends, records⟩ :=
    ends_of_final run serves timeless follows stores row final posted
  obtain ⟨fuel', result', ends', records'⟩ :=
    ends_of_final run' serves' timeless follows' stores' row' final' posted'
  rw [repr] at ends
  cases runJob_unique ends ends'
  exact records.agree records'

/-- One worker does all three attempts, or two take turns with another backoff. -/
theorem final_rows_agree_flaky :
    ∃ t s r t' s' r', Runs (demoFlaky 5) 0 .empty t s ∧ Runs (demoFlaky 1) 0 .empty t' s' ∧
      s.db.jobs.row 1 = some r ∧ s'.db.jobs.row 1 = some r' ∧ r.status = r'.status ∧
      r.attempt = r'.attempt ∧ r.result = r'.result ∧ r.error = r'.error := by
  obtain ⟨t, s, r, run, row, done, posted, follows, stores⟩ :=
    demoFlaky_run (demoFlaky 5) demoFlaky_found (demoFlakyEvents ⟨0, 0⟩ ⟨0, 0⟩ ⟨0, 0⟩)
      (by decide +kernel)
  obtain ⟨t', s', r', run', row', done', posted', follows', stores'⟩ :=
    demoFlaky_run (demoFlaky 1) demoFlaky_found (demoFlakyEvents ⟨0, 1⟩ ⟨0, 0⟩ ⟨0, 1⟩)
      (by decide +kernel)
  exact ⟨t, s, r, t', s', r', run, run', row, row',
    final_rows_agree (demoFlaky 5) (demoFlaky 1) demoFlakyRegistry 0 0 rfl rfl rfl
      demoFlaky_timeless run run' follows follows' 1 (stores 1) (stores' 1) demoFlakyJob posted
      posted' r r' row row' (.inl done) (.inl done')⟩

end TaskQueue
