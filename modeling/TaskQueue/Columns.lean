/-
# TaskQueue.Columns -- what the columns of a row say

Each statement writes some columns of a row and leaves the others as they are, and nothing
but the order of the statements makes them agree.  Whatever the interleaving, the columns of
every row agree with its status and with the clock, those that the request gave keep their
values, and the rows are the jobs that were enqueued and not cancelled.

* `Job.Consistent` is the agreement, `consistent_of_run` the invariant.
* `PostedAt` is the INSERT of a job in the history, `posted_of_row` what a row has of it.
* `row_iff_kept`: a job has a row unless a cancellation deleted it.
-/
import TaskQueue.Accounting
import TaskQueue.Backoff

namespace TaskQueue

set_option autoImplicit false

open Transition

/-- The columns of a row agree with its status, and its times with the clock and with one
another. -/
structure Job.Consistent (now : Time) (r : Job) : Prop where
  status : r.status ≠ .failed
  owned : r.status = .claimed ∨ r.status = .done → r.workerId ≠ none
  unowned : r.status = .pending → r.workerId = none
  beating : r.status = .running → r.heartbeatAt ≠ none
  completed_iff : r.completedAt ≠ none ↔ r.status = .done
  result : r.result ≠ none → r.status = .done
  /-- a row has the text of an error if some attempt failed -/
  error_iff : r.error = none ↔ r.attempt = if r.status = .done then 1 else 0
  created : r.createdAt ≤ now
  claimed : ∀ c ∈ r.claimedAt, c ≤ now
  heartbeat : ∀ h ∈ r.heartbeatAt, h ≤ now
  completed : ∀ d ∈ r.completedAt, r.createdAt ≤ d ∧ d ≤ now ∧ ∀ c ∈ r.claimedAt, c ≤ d

/-- The INSERT of job `j` is in the history, with this body and at this time. -/
def PostedAt (cfg : Config) (j : JobId) (body : JobCreate) (at_ : Time) (t : History Sys Event) :
    Prop :=
  ∃ x ∈ t, committed cfg x.1 x.2 = some (.insertJob body) ∧ x.1.db.jobs.next = j ∧ x.1.now = at_

/-- A cancellation deleted job `j`. -/
def Cancelled (cfg : Config) (j : JobId) (t : History Sys Event) : Prop :=
  ∃ x ∈ t, committed cfg x.1 x.2 = some (.deleteJob j)

/-- The columns of an INSERT that no statement writes again. -/
structure Job.FromPost (body : JobCreate) (at_ : Time) (r : Job) : Prop where
  type : r.type = body.type
  payload : r.payload = body.payload
  priority : r.priority = body.priority
  maxRetries : r.maxRetries = body.maxRetries
  createdAt : r.createdAt = at_

section

variable {cfg : Config} {t₀ : Time} {t : History Sys Event} {s s' : Sys} {e : Event} {j : JobId}
  {r r' : Job} {now later : Time} {body : JobCreate} {at_ : Time}

/-! ## Agreement of the columns -/

theorem Job.Consistent.ofCreate (now : Time) (body : JobCreate) :
    (Job.ofCreate now body).Consistent now where
  status := by simp [Job.ofCreate]
  owned status := by simp [Job.ofCreate] at status
  unowned _ := rfl
  beating status := by simp [Job.ofCreate] at status
  completed_iff := by simp [Job.ofCreate]
  result some_ := absurd rfl some_
  error_iff := by simp [Job.ofCreate]
  created := le_refl now
  claimed c member := by cases member
  heartbeat h member := by cases member
  completed d member := by cases member

/-- The clock moves on. -/
theorem Job.Consistent.mono (consistent : r.Consistent now) (le : now ≤ later) :
    r.Consistent later :=
  { consistent with
    created := consistent.created.trans le
    claimed := fun c member => (consistent.claimed c member).trans le
    heartbeat := fun h member => (consistent.heartbeat h member).trans le
    completed := fun d member => by
      obtain ⟨created, before, claimed⟩ := consistent.completed d member
      exact ⟨created, before.trans le, claimed⟩ }

/-- A row that is not done has no completion time. -/
theorem Job.Consistent.incomplete (consistent : r.Consistent now) (undone : r.status ≠ .done) :
    r.completedAt = none := by
  by_contra some_
  exact undone (consistent.completed_iff.1 some_)

theorem Job.Consistent.no_result (consistent : r.Consistent now) (undone : r.status ≠ .done) :
    r.result = none := by
  by_contra some_
  exact undone (consistent.result some_)

/-- A row without an error that is not done has not been attempted. -/
theorem Job.Consistent.error_of_undone (consistent : r.Consistent now)
    (undone : r.status ≠ .done) : r.error = none ↔ r.attempt = 0 := by
  rw [consistent.error_iff, if_neg undone]

/-- What has to be shown of a statement that turns a row that is not done into another. -/
theorem Job.Consistent.undone (consistent : r.Consistent now) (undone : r.status ≠ .done)
    (undone' : r'.status ≠ .done) (createdAt : r'.createdAt = r.createdAt)
    (completedAt : r'.completedAt = r.completedAt) (result : r'.result = r.result)
    (status : r'.status ≠ .failed) (owned : r'.status = .claimed → r'.workerId ≠ none)
    (unowned : r'.status = .pending → r'.workerId = none)
    (beating : r'.status = .running → r'.heartbeatAt ≠ none)
    (error : r'.error = none ↔ r'.attempt = 0) (claimed : ∀ c ∈ r'.claimedAt, c ≤ now)
    (heartbeat : ∀ h ∈ r'.heartbeatAt, h ≤ now) : r'.Consistent now where
  status := status
  owned either := owned (either.resolve_right undone')
  unowned := unowned
  beating := beating
  completed_iff := by
    rw [completedAt, consistent.incomplete undone]
    exact iff_of_false (absurd rfl) undone'
  result some_ := by
    rw [result, consistent.no_result undone] at some_
    exact absurd rfl some_
  error_iff := by rw [error, if_neg undone']
  created := by
    rw [createdAt]
    exact consistent.created
  claimed := claimed
  heartbeat := heartbeat
  completed d member := by
    rw [completedAt, consistent.incomplete undone] at member
    cases member

/-- Every statement that reaches a row keeps its columns consistent. -/
theorem consistent_step (run : Runs cfg t₀ .empty t s) (taken : step cfg s e = some s')
    (consistent : r.Consistent s.now) (change : RowStep cfg t s e j r (some r')) :
    r'.Consistent s.now := by
  have own (τ : Time) : ∀ c ∈ some τ, c = τ := fun c member => (Option.some.inj member).symm
  cases change with
  | keeps _ _ => exact consistent
  | @claims w startedAt commits pending =>
      have undone : r.status ≠ .done := by simp [pending]
      refine consistent.undone undone (by simp [Job.setClaimed]) rfl rfl rfl
        (by simp [Job.setClaimed])
        (by simp [Job.setClaimed]) (by simp [Job.setClaimed]) (by simp [Job.setClaimed])
        (consistent.error_of_undone undone) (fun c member => ?_) consistent.heartbeat
      rw [own startedAt c member]
      exact claimed_le_now run taken commits
  | marks _ _ _ holds =>
      have undone := holds.live.not_done
      refine consistent.undone undone (by simp [Job.setRunning]) rfl rfl rfl
        (by simp [Job.setRunning])
        (by simp [Job.setRunning]) (by simp [Job.setRunning]) (by simp [Job.setRunning])
        (consistent.error_of_undone undone) consistent.claimed fun h member => ?_
      exact le_of_eq (own s.now h member)
  | succeeds _ _ _ holds =>
      have error := consistent.error_of_undone holds.live.not_done
      exact
        { status := by simp [Job.setDone]
          owned := by simp [Job.setDone]
          unowned := by simp [Job.setDone]
          beating := by simp [Job.setDone]
          completed_iff := by simp [Job.setDone]
          result := fun _ => rfl
          error_iff := by simpa [Job.setDone] using error
          created := consistent.created
          claimed := consistent.claimed
          heartbeat := fun h member => by cases member
          completed := fun d member => by
            rw [own s.now d member]
            exact ⟨consistent.created, le_refl _, consistent.claimed⟩ }
  | dies _ _ _ holds _ =>
      exact consistent.undone holds.live.not_done (by simp [Job.setDead]) rfl rfl rfl
        (by simp [Job.setDead]) (by simp [Job.setDead]) (by simp [Job.setDead])
        (by simp [Job.setDead]) (by simp [Job.setDead]) consistent.claimed consistent.heartbeat
  | retries _ _ _ holds _ =>
      exact consistent.undone holds.live.not_done (by simp [Job.setRetry]) rfl rfl rfl
        (by simp [Job.setRetry]) (by simp [Job.setRetry]) (fun _ => rfl)
        (by simp [Job.setRetry]) (by simp [Job.setRetry]) consistent.claimed consistent.heartbeat
  | beats _ _ _ =>
      exact
        { consistent with
          beating := by simp [Job.setHeartbeat]
          heartbeat := fun h member => le_of_eq (own s.now h member) }
  | reclaims _ stale =>
      have undone : r.status ≠ .done := Job.Live.not_done (.inr (Job.isStale_iff.1 stale).1)
      exact consistent.undone undone (by simp [Job.setReclaimed]) rfl rfl rfl
        (by simp [Job.setReclaimed]) (by simp [Job.setReclaimed]) (fun _ => rfl)
        (by simp [Job.setReclaimed]) (consistent.error_of_undone undone)
        (fun c member => by cases member) (fun h member => by cases member)

/-- **Columns and status.**  In every reachable state the columns of every row are
consistent. -/
theorem consistent_of_run (run : Runs cfg t₀ .empty t s) :
    ∀ j r, s.db.jobs.row j = some r → r.Consistent s.now := by
  refine run.invariant (P := fun _ s => ∀ j r, s.db.jobs.row j = some r → r.Consistent s.now) ?_ ?_
  · intro j r row
    cases row
  intro t s e s' run ih taken j r' row'
  refine Job.Consistent.mono ?_ (step_now taken)
  cases row : s.db.jobs.row j with
  | some r =>
      have change := row_step run taken row
      rw [row'] at change
      exact consistent_step run taken (ih j r row) change
  | none =>
      rw [step_db taken] at row'
      obtain ⟨body, -, -, rfl⟩ := row_new row row'
      exact .ofCreate s.now body

/-! ## Columns of the request -/

theorem PostedAt.cons (x : Sys × Event) (posted : PostedAt cfg j body at_ t) :
    PostedAt cfg j body at_ (x :: t) := by
  obtain ⟨y, member, facts⟩ := posted
  exact ⟨y, List.mem_cons_of_mem _ member, facts⟩

/-- No statement writes the columns of the request. -/
theorem RowStep.fromPost (change : RowStep cfg t s e j r (some r')) (same : r.FromPost body at_) :
    r'.FromPost body at_ := by
  cases change <;> exact ⟨same.type, same.payload, same.priority, same.maxRetries, same.createdAt⟩

/-- A row has the columns of its request, and the time of its INSERT. -/
theorem posted_of_row (run : Runs cfg t₀ .empty t s) :
    ∀ j r, s.db.jobs.row j = some r →
      ∃ body at_, enqueued cfg j t = some body ∧ PostedAt cfg j body at_ t ∧
        r.FromPost body at_ := by
  refine run.invariant (P := fun t s => ∀ j r, s.db.jobs.row j = some r →
    ∃ body at_, enqueued cfg j t = some body ∧ PostedAt cfg j body at_ t ∧
      r.FromPost body at_) ?_ ?_
  · intro j r row
    cases row
  intro t s e s' run ih taken j r' row'
  cases row : s.db.jobs.row j with
  | some r =>
      obtain ⟨body, at_, had, posted, same⟩ := ih j r row
      have change := row_step run taken row
      rw [row'] at change
      rw [enqueued_old (SerialTable.lt_next row)]
      exact ⟨body, at_, had, posted.cons _, change.fromPost same⟩
  | none =>
      rw [step_db taken] at row'
      obtain ⟨body, commits, next, rfl⟩ := row_new row row'
      have posted : PostedAt cfg j body s.now ((s, e) :: t) :=
        ⟨(s, e), List.mem_cons_self, commits, next.symm, rfl⟩
      exact ⟨body, s.now, enqueued_insert commits next.symm, posted, ⟨rfl, rfl, rfl, rfl, rfl⟩⟩

/-! ## No job is lost -/

theorem cancelled_cons :
    Cancelled cfg j ((s, e) :: t) ↔
      committed cfg s e = some (.deleteJob j) ∨ Cancelled cfg j t := by
  simp [Cancelled]

/-- Only a job that was enqueued is cancelled. -/
theorem lt_next_of_cancelled (run : Runs cfg t₀ .empty t s) :
    Cancelled cfg j t → j < s.db.jobs.next := by
  refine run.invariant (P := fun t s => Cancelled cfg j t → j < s.db.jobs.next) ?_ ?_
  · rintro ⟨x, member, -⟩
    cases member
  intro t s e s' _ ih taken cancelled
  rw [step_db taken]
  refine Nat.lt_of_lt_of_le ?_ (next_commit _ _ _)
  rcases cancelled_cons.1 cancelled with commits | before
  · obtain ⟨r, row, -⟩ := delete_pending taken commits
    exact SerialTable.lt_next row
  · exact ih before

/-- **No job is lost and none is invented.**  In every reachable state a job has a row exactly
if it was enqueued and no cancellation deleted it. -/
theorem row_iff_kept (run : Runs cfg t₀ .empty t s) :
    ∀ j, (∃ r, s.db.jobs.row j = some r) ↔
      (∃ body, enqueued cfg j t = some body) ∧ ¬ Cancelled cfg j t := by
  refine run.invariant (P := fun t s => ∀ j, (∃ r, s.db.jobs.row j = some r) ↔
    (∃ body, enqueued cfg j t = some body) ∧ ¬ Cancelled cfg j t) ?_ ?_
  · intro j
    refine iff_of_false ?_ ?_
    · rintro ⟨r, row⟩
      cases row
    · rintro ⟨⟨body, posted⟩, -⟩
      cases posted
  intro t s e s' run ih taken j
  rw [cancelled_cons, not_or]
  by_cases old : j < s.db.jobs.next
  · -- an old job keeps its row unless this step deletes it
    rw [enqueued_old old, and_left_comm, ← ih j]
    constructor
    · rintro ⟨r', row'⟩
      rw [step_db taken] at row'
      obtain ⟨r, row, after⟩ := row_before _ old row'
      refine ⟨fun deletes => ?_, r, row⟩
      rw [deletes] at after
      simp [rowAfter, Statement.onRow] at after
    · rintro ⟨stays, r, row⟩
      have change := row_step run taken row
      cases row' : s'.db.jobs.row j with
      | some r' => exact ⟨r', rfl⟩
      | none =>
          rw [row'] at change
          cases change with
          | deletes commits _ => exact absurd commits stays
  · -- a job that is not there yet is enqueued now, or not at all
    have fresh := not_lt.1 old
    have gone : s.db.jobs.row j = none := s.db.jobs.fresh j fresh
    have uncancelled : ¬ Cancelled cfg j t := fun before => old (lt_next_of_cancelled run before)
    have stays : committed cfg s e ≠ some (.deleteJob j) := by
      intro deletes
      obtain ⟨r, row, -⟩ := delete_pending taken deletes
      cases gone.symm.trans row
    rw [and_iff_left ⟨stays, uncancelled⟩]
    constructor
    · rintro ⟨r', row'⟩
      rw [step_db taken] at row'
      obtain ⟨body, commits, next, -⟩ := row_new gone row'
      exact ⟨body, enqueued_insert commits next.symm⟩
    · rintro ⟨body, posted⟩
      rcases enqueued_cons posted with ⟨commits, rfl⟩ | before
      · rw [step_db taken, commits]
        exact ⟨.ofCreate s.now body, by simp [Db.commit, Db.exec, SerialTable.row_insert]⟩
      · exact absurd (lt_next_of_enqueued run body before) old

end

/-- **Every row adds up.**  In every reachable state the columns of every row are consistent,
and its type, payload, priority, budget and creation time are those of its INSERT.  A
statement that raises has no effect here: after a `'done'` UPDATE that takes effect and raises,
`_handle_failure` would leave a result in a row that is not done. -/
theorem columns_of_rows (cfg : Config) (t₀ : Time) {t : History Sys Event} {s : Sys}
    (run : Runs cfg t₀ .empty t s) (j : JobId) (r : Job) (row : s.db.jobs.row j = some r) :
    r.Consistent s.now ∧ ∃ body at_, PostedAt cfg j body at_ t ∧ r.FromPost body at_ := by
  obtain ⟨body, at_, -, posted, same⟩ := posted_of_row run j r row
  exact ⟨consistent_of_run run j r row, body, at_, posted, same⟩

/-- A job that failed once and then succeeded. -/
theorem columns_of_rows_retried :
    ∃ t s r, Runs demo 0 .empty t s ∧ s.db.jobs.row 1 = some r ∧ r.status = .done ∧
      r.attempt = 2 ∧ r.completedAt ≠ none ∧ r.error ≠ none := by
  obtain ⟨t, s, run, after⟩ := demo_run
    ([.createJob demoJob, .start 0, .worker ⟨0, 0⟩ (.connect true)] ++
      demoClaim ⟨0, 0⟩ [1] (some 1) ++
      [.worker ⟨0, 0⟩ (.markRunning false), .worker ⟨0, 0⟩ .startHandler,
        .worker ⟨0, 0⟩ (.handlerEnds (.obj []) (.raises ⟨"OSError", "no space"⟩)),
        .worker ⟨0, 0⟩ (.handleFailure false), .worker ⟨0, 0⟩ (.unlock false), .tick 5] ++
      demoClaim ⟨0, 0⟩ [1] (some 1) ++ demoDone ⟨0, 0⟩)
    (fun out => (out.2.db.jobs.row 1).any fun r => r.status = .done ∧ r.attempt = 2)
    (by decide +kernel)
  simp only [Option.any_eq_true, decide_eq_true_eq] at after
  obtain ⟨r, row, done, twice⟩ := after
  obtain ⟨consistent, -⟩ := columns_of_rows demo 0 run 1 r row
  refine ⟨t, s, r, run, row, done, twice, consistent.completed_iff.2 done, fun blank => ?_⟩
  have once := consistent.error_iff.1 blank
  rw [if_pos done, twice] at once
  cases once

end TaskQueue
