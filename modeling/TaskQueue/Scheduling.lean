/-
# TaskQueue.Scheduling -- nothing happens early

`run_at` is "the earliest time the job may run": of a scheduled job the time that its request
gave, and after a failed attempt the end of a delay.  A worker reads it once, in the claim, and
between that claim and the outcome a sweep may have given the job to another worker.

* `OnSchedule` is what the schedule means for a row, and `onSchedule_of_run` the invariant.
* `never_early`: the same for rows, claims and outcomes, against the request.
-/
import TaskQueue.Backoff
import TaskQueue.Responses

namespace TaskQueue

set_option autoImplicit false

open Transition

/-- When a request asks for its job to run: `COALESCE($5, NOW())`. -/
def JobCreate.due (body : JobCreate) (at_ : Time) : Time := body.runAt.getD at_

/-- The earliest moment for the attempt after `k` failures. -/
def earliest (cfg : Config) (due : Time) (k : ℕ) : Time := due + (2 ^ k - 1) * cfg.baseDelay

/-- The row waits for its next attempt, and its success was not early. -/
structure OnSchedule (cfg : Config) (due : Time) (r : Job) : Prop where
  waits : r.Live → earliest cfg due r.attempt ≤ r.runAt
  done : r.status = .done → ∃ d, r.completedAt = some d ∧ earliest cfg due (r.attempt - 1) ≤ d

section

variable {cfg : Config} {t₀ : Time} {t : History Sys Event} {s s' : Sys} {e : Event}
  {j : JobId} {r r' : Job} {w : WorkerId} {due : Time}

theorem earliest_succ (cfg : Config) (due : Time) (k : ℕ) :
    earliest cfg due (k + 1) = earliest cfg due k + 2 ^ k * cfg.baseDelay := by
  simp only [earliest]
  ring

/-- Whoever executes a job found it due. -/
theorem OnSchedule.executed (onSchedule : OnSchedule cfg due r) (run : Runs cfg t₀ .empty t s)
    (row : s.db.jobs.row j = some r) (live : r.Live) (executes : Executes s w j) :
    earliest cfg due r.attempt ≤ s.now :=
  (onSchedule.waits live).trans (((spaced_of_run run).1 j r row).due w executes).2

theorem onSchedule_step (run : Runs cfg t₀ .empty t s) (taken : step cfg s e = some s')
    (row : s.db.jobs.row j = some r) (row' : s'.db.jobs.row j = some r')
    (onSchedule : OnSchedule cfg due r) : OnSchedule cfg due r' := by
  have change := row_step run taken row
  have retried (hit : retriesOf cfg j s e = true) : OnSchedule cfg due r' := by
    obtain ⟨w, r₀, error, executes, row₀, live, after⟩ := retry_row run taken hit
    cases row.symm.trans row₀
    cases row'.symm.trans after
    have soFar := onSchedule.executed run row live executes
    refine ⟨fun _ => ?_, fun done => by cases done⟩
    simp only [Job.setRetry, earliest_succ]
    linarith
  -- a statement that leaves the row live, its attempts and its `run_at` alone
  have same {r' : Job} (live : r.Live) (undone : r'.status ≠ .done)
      (attempt : r'.attempt = r.attempt) (runAt : r'.runAt = r.runAt) :
      OnSchedule cfg due r' := by
    refine ⟨fun _ => ?_, fun done => absurd done undone⟩
    rw [attempt, runAt]
    exact onSchedule.waits live
  rw [row'] at change
  cases change with
  | keeps _ _ => exact onSchedule
  | claims _ pending => exact same (.inl pending) (fun done => by cases done) rfl rfl
  | marks _ _ _ holds => exact same holds.live (fun done => by cases done) rfl rfl
  | beats _ _ running =>
      exact same (.inr (.inr running)) (fun done => by cases running.symm.trans done) rfl rfl
  | reclaims _ stale =>
      exact same (.inr (Job.isStale_iff.1 stale).1) (fun done => by cases done) rfl rfl
  | @succeeds w job value _ writes own holds =>
      refine ⟨fun live => absurd live (Job.not_live_of_final (.inl rfl)), fun _ => ⟨s.now, rfl, ?_⟩⟩
      exact onSchedule.executed run row holds.live ⟨job, writes.job, own⟩
  | dies _ _ _ _ _ =>
      exact ⟨fun live => absurd live (Job.not_live_of_final (.inr rfl)), fun done => by cases done⟩
  | retries commits _ _ _ _ => exact retried (by simp [retriesOf, commits, row])

/-- **Every row is on schedule.** -/
theorem onSchedule_of_run (run : Runs cfg t₀ .empty t s) :
    ∀ j r, s.db.jobs.row j = some r →
      ∃ body at_, PostedAt cfg j body at_ t ∧ OnSchedule cfg (body.due at_) r := by
  refine run.invariant (P := fun t s => ∀ j r, s.db.jobs.row j = some r →
    ∃ body at_, PostedAt cfg j body at_ t ∧ OnSchedule cfg (body.due at_) r) ?_ ?_
  · intro j r row
    cases row
  intro t s e s' run ih taken j r' row'
  cases row : s.db.jobs.row j with
  | some r =>
      obtain ⟨body, at_, posted, onSchedule⟩ := ih j r row
      exact ⟨body, at_, posted.cons _, onSchedule_step run taken row row' onSchedule⟩
  | none =>
      rw [step_db taken] at row'
      obtain ⟨body, commits, next, rfl⟩ := row_new row row'
      refine ⟨body, s.now, ⟨(s, e), List.mem_cons_self, commits, next.symm, rfl⟩, fun _ => ?_,
        fun done => by cases done⟩
      simp [earliest, Job.ofCreate, JobCreate.due]

/-- A claim of a row that is on schedule, and an outcome, are not early. -/
theorem OnSchedule.step (onSchedule : OnSchedule cfg due r) (run : Runs cfg t₀ .empty t s)
    (taken : step cfg s e = some s') (row : s.db.jobs.row j = some r) :
    (∀ w τ, committed cfg s e = some (.claim w j τ) → earliest cfg due r.attempt ≤ τ) ∧
      ∀ o, decided cfg s e j = some o → earliest cfg due r.attempt ≤ s.now := by
  constructor
  · intro w τ commits
    obtain ⟨-, r₀, row₀, pending, reached⟩ := claim_at taken commits
    cases row.symm.trans row₀
    exact (onSchedule.waits (.inl pending)).trans reached
  · intro o writes
    have change := row_step run taken row
    have own {w : WorkerId} {job : Record} (live : r.Live) (write : StatusWrite s w job e)
        (same : job.id = j) : earliest cfg due r.attempt ≤ s.now :=
      onSchedule.executed run row live ⟨job, write.job, same⟩
    have undecided {st : Statement} (commits : committed cfg s e = some st)
        (quiet : st.decides = none) : earliest cfg due r.attempt ≤ s.now := by
      cases (decided_none commits quiet).symm.trans writes
    generalize s'.db.jobs.row j = after at change
    cases change with
    | keeps undecided _ => cases undecided.symm.trans writes
    | claims commits _ => exact undecided commits rfl
    | marks commits _ _ _ => exact undecided commits rfl
    | beats commits _ _ => exact undecided commits rfl
    | reclaims commits _ => exact undecided commits rfl
    | deletes commits _ => exact undecided commits rfl
    | succeeds _ write same holds => exact own holds.live write same
    | dies _ write same holds _ => exact own holds.live write same
    | retries _ write same holds _ => exact own holds.live write same

theorem steps_onSchedule (run : Runs cfg t₀ .empty t s) :
    ∀ a e r, (a, e) ∈ t → a.db.jobs.row j = some r →
      ∃ body at_, PostedAt cfg j body at_ t ∧
        (∀ w τ, committed cfg a e = some (.claim w j τ) →
            earliest cfg (body.due at_) r.attempt ≤ τ) ∧
          ∀ o, decided cfg a e j = some o → earliest cfg (body.due at_) r.attempt ≤ a.now := by
  induction run with
  | nil =>
      intro a e r member
      cases member
  | @snoc t s s' e before taken ih =>
      intro a e' r member row
      rcases List.mem_cons.1 member with now | earlier
      · cases now
        obtain ⟨body, at_, posted, onSchedule⟩ := onSchedule_of_run before j r row
        exact ⟨body, at_, posted.cons _, onSchedule.step before taken row⟩
      · obtain ⟨body, at_, posted, steps⟩ := ih a e' r earlier row
        exact ⟨body, at_, posted.cons _, steps⟩

end

/-- **Nothing happens early.**  In every run a job that was posted to run from some time on is
claimed, and its outcomes are written, no earlier than that time and the delays of the attempts
that failed before, `2 ^ k - 1` of them after `k` failures, whatever is swept and whoever
executes it; its row says so while it waits, by `run_at`, and once it is done, by
`completed_at`. -/
theorem never_early (cfg : Config) (t₀ : Time) {t : History Sys Event} {s : Sys}
    (run : Runs cfg t₀ .empty t s) (j : JobId) (body : JobCreate) (at_ : Time)
    (posted : PostedAt cfg j body at_ t) :
    (∀ r, s.db.jobs.row j = some r →
        (r.Live → earliest cfg (body.due at_) r.attempt ≤ r.runAt) ∧
          (r.status = .done →
            ∃ d, r.completedAt = some d ∧ earliest cfg (body.due at_) (r.attempt - 1) ≤ d)) ∧
      ∀ a e r, (a, e) ∈ t → a.db.jobs.row j = some r →
        (∀ w τ, committed cfg a e = some (.claim w j τ) →
            earliest cfg (body.due at_) r.attempt ≤ τ) ∧
          ∀ o, decided cfg a e j = some o → earliest cfg (body.due at_) r.attempt ≤ a.now := by
  have unique := (posted_unique run posted).2
  constructor
  · intro r row
    obtain ⟨body', at_', posted', onSchedule⟩ := onSchedule_of_run run j r row
    obtain ⟨rfl, rfl⟩ := unique _ _ posted'
    exact ⟨onSchedule.waits, onSchedule.done⟩
  · intro a e r member row
    obtain ⟨body', at_', posted', steps⟩ := steps_onSchedule run a e r member row
    obtain ⟨rfl, rfl⟩ := unique _ _ posted'
    exact steps

def demoLater : JobCreate := { demoJob with runAt := some 7 }

def demoLaterPosted : Sys :=
  (step demo (.boot 0 .empty) (.createJob demoLater)).getD (.boot 0 .empty)

/-- A job for time 7, whose first attempt fails: with a delay of five seconds its second one
waits until 12. -/
theorem never_early_retried :
    ∃ t s r, Runs demo 0 .empty t s ∧ s.db.jobs.row 1 = some r ∧ r.status = .done ∧
      ∃ d, r.completedAt = some d ∧ 12 ≤ d := by
  have asked : Runs demo 0 .empty [(.boot 0 .empty, .createJob demoLater)] demoLaterPosted :=
    .snoc .nil rfl
  have replayed : (exec (step demo) [] demoLaterPosted
      ([.start 0, .worker ⟨0, 0⟩ (.connect true), .tick 7] ++ demoClaim ⟨0, 0⟩ [1] (some 1) ++
        [.worker ⟨0, 0⟩ (.markRunning false), .worker ⟨0, 0⟩ .startHandler,
          .worker ⟨0, 0⟩ (.handlerEnds (.obj []) (.raises ⟨"OSError", "no space"⟩)),
          .worker ⟨0, 0⟩ (.handleFailure false), .worker ⟨0, 0⟩ (.unlock false), .tick 5] ++
        demoClaim ⟨0, 0⟩ [1] (some 1) ++ demoDone ⟨0, 0⟩)).any (fun out =>
          (out.2.db.jobs.row 1).any fun r => r.status = .done ∧ r.attempt = 2) = true := by
    decide +kernel
  obtain ⟨u, s, run, after⟩ := run_of_exec _ _ replayed
  simp only [Option.any_eq_true, decide_eq_true_eq] at after
  obtain ⟨r, row, done, twice⟩ := after
  have posted : PostedAt demo 1 demoLater 0 (u ++ [(.boot 0 .empty, .createJob demoLater)]) :=
    posted_of_member (List.mem_append_right u List.mem_cons_self)
  obtain ⟨rows, -⟩ := never_early demo 0 (asked.append run) 1 demoLater 0 posted
  obtain ⟨d, completed, late⟩ := (rows r row).2 done
  refine ⟨_, s, r, asked.append run, row, done, d, completed, ?_⟩
  rw [twice] at late
  norm_num [earliest, JobCreate.due, demoLater, demo] at late
  exact late

end TaskQueue
