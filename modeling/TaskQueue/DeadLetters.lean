/-
# TaskQueue.DeadLetters -- one dead letter for every dead job

`dead_letter_jobs` has no key on `original_id`, and its row is built from the record of
the claim.  That a dead job has exactly one letter, and that the letter agrees with the
row, rests on the row being the record's when it dies, and on a dead row being final.
-/
import TaskQueue.Accounting

namespace TaskQueue

set_option autoImplicit false

open Transition

/-- The dead letters of job `j`. -/
def lettersOf (db : Db) (j : JobId) : List DeadLetter :=
  db.deadLetters.filter fun d => d.originalId = j

/-- A dead row has one letter, which agrees with it; any other row has none. -/
structure Lettered (db : Db) (j : JobId) (r : Job) : Prop where
  dead : r.status = .dead →
    ∃ d, lettersOf db j = [d] ∧ d.type = r.type ∧ some d.error = r.error ∧ d.attempts = r.attempt
  spared : r.status ≠ .dead → lettersOf db j = []

section

variable {cfg : Config} {t₀ : Time} {t : History Sys Event} {s s' : Sys} {e : Event}
  {j : JobId} {r r' : Job}

/-- Only the burial of `j` adds a letter to `j`. -/
theorem lettersOf_commit {now : Time} {db : Db} {st : Option Statement}
    (other : ∀ type payload error attempts w,
      st ≠ some (.bury j type payload error attempts w)) :
    lettersOf (db.commit now st) j = lettersOf db j := by
  cases st with
  | none => rfl
  | some statement =>
      cases statement with
      | bury id type payload error attempts w =>
          have ne : id ≠ j := by
            rintro rfl
            exact other type payload error attempts w rfl
          simp [lettersOf, Db.commit, Db.exec, ne]
      | _ => rfl

theorem lettersOf_bury {now : Time} {db : Db} {type error : String} {payload : Json}
    {attempts : ℕ} {w : WorkerId} :
    lettersOf (db.commit now (some (.bury j type payload error attempts w))) j =
      lettersOf db j ++
        [{ originalId := j, type, payload, error, attempts, workerId := w, diedAt := now }] := by
  simp [lettersOf, Db.commit, Db.exec]

theorem not_bury_of_undecided (undecided : decided cfg s e j = none) (type : String)
    (payload : Json) (error : String) (attempts : ℕ) (w : WorkerId) :
    committed cfg s e ≠ some (.bury j type payload error attempts w) := by
  intro commits
  simp [decided, commits, Statement.decides] at undecided

theorem lettered_step (lettered : Lettered s.db j r) (taken : step cfg s e = some s')
    (change : RowStep cfg t s e j r (some r')) : Lettered s'.db j r' := by
  rw [step_db taken]
  -- no letter is added, and the row is not dead before or after
  have spares (commits : ∀ type payload error attempts w,
        committed cfg s e ≠ some (.bury j type payload error attempts w))
      (live : r.Live) (alive : r'.status ≠ .dead) :
      Lettered (s.db.commit s.now (committed cfg s e)) j r' := by
    refine ⟨fun dead => absurd dead alive, fun _ => ?_⟩
    rw [lettersOf_commit commits]
    exact lettered.spared live.not_dead
  cases change with
  | keeps undecided _ =>
      have same : lettersOf (s.db.commit s.now (committed cfg s e)) j = lettersOf s.db j :=
        lettersOf_commit (not_bury_of_undecided undecided)
      exact ⟨fun dead => by rw [same]; exact lettered.dead dead,
        fun alive => by rw [same]; exact lettered.spared alive⟩
  | claims commits pending =>
      exact spares (by simp [commits]) (.inl pending) (by simp [Job.setClaimed])
  | marks commits _ _ holds =>
      exact spares (by simp [commits]) holds.live (by simp [Job.setRunning])
  | succeeds commits _ _ holds =>
      exact spares (by simp [commits]) holds.live (by simp [Job.setDone])
  | retries commits _ _ holds _ =>
      exact spares (by simp [commits]) holds.live (by simp [Job.setRetry])
  | beats commits _ running =>
      have live : r.Live := .inr (.inr running)
      exact spares (by simp [commits]) live live.not_dead
  | reclaims commits stale =>
      have live : r.Live := .inr (Job.isStale_iff.1 stale).1
      exact spares (by simp [commits]) live (by simp [Job.setReclaimed])
  | dies commits _ _ holds _ =>
      have none_ : lettersOf s.db j = [] := lettered.spared holds.live.not_dead
      refine ⟨fun _ => ?_, fun alive => absurd rfl alive⟩
      rw [commits, lettersOf_bury, none_]
      exact ⟨_, rfl, rfl, rfl, rfl⟩

/-- A letter is addressed to a key that was handed out. -/
theorem letters_old (run : Runs cfg t₀ .empty t s) :
    ∀ d ∈ s.db.deadLetters, d.originalId < s.db.jobs.next := by
  refine run.invariant (P := fun _ s => ∀ d ∈ s.db.deadLetters, d.originalId < s.db.jobs.next)
    (fun d member => by cases member) ?_
  intro t s e s' run old taken d member
  rw [step_db taken] at member ⊢
  have grows := next_commit s.now s.db (committed cfg s e)
  -- a step that adds no letter
  have kept (same : (s.db.commit s.now (committed cfg s e)).deadLetters = s.db.deadLetters) :
      d.originalId < (s.db.commit s.now (committed cfg s e)).jobs.next := by
    rw [same] at member
    exact Nat.lt_of_lt_of_le (old d member) grows
  cases change_of_run run taken with
  | @fails w job error commits writes _ _ =>
      by_cases spent : job.maxRetries ≤ job.attempt + 1
      · have buries : committed cfg s e =
            some (.bury job.id job.type (payloadDict job.payload) error.text (job.attempt + 1) w) :=
          commits.trans (congrArg some (if_pos spent))
        rw [buries] at member grows ⊢
        rcases List.mem_append.1 member with earlier | new
        · exact Nat.lt_of_lt_of_le (old d earlier) grows
        · rw [List.mem_singleton.1 new]
          exact Nat.lt_of_lt_of_le (tracked_of_run run w job writes.job).1 grows
      · apply kept
        rw [commits, handleFailure, if_neg spent]
        rfl
  | claims commits => exact kept (by rw [commits]; rfl)
  | marks commits => exact kept (by rw [commits]; rfl)
  | carries commits => exact kept (by rw [commits]; rfl)
  | succeeds commits => exact kept (by rw [commits]; rfl)
  | heartbeats commits => exact kept (by rw [commits]; rfl)
  | reaps commits => exact kept (by rw [commits]; rfl)
  | inserts commits => exact kept (by rw [commits]; rfl)
  | deletes commits => exact kept (by rw [commits]; rfl)
  | quiet commits => exact kept (by rw [commits]; rfl)

theorem lettered_of_run (run : Runs cfg t₀ .empty t s) :
    ∀ j r, s.db.jobs.row j = some r → Lettered s.db j r := by
  refine run.invariant (P := fun _ s => ∀ j r, s.db.jobs.row j = some r → Lettered s.db j r) ?_ ?_
  · intro j r row
    cases row
  intro t s e s' run lettered taken j r' row'
  cases row : s.db.jobs.row j with
  | some r =>
      have change := row_step run taken row
      rw [row'] at change
      exact lettered_step (lettered j r row) taken change
  | none =>
      rw [step_db taken] at row' ⊢
      obtain ⟨body, commits, rfl, rfl⟩ := row_new row row'
      refine ⟨(fun dead => by cases dead), fun _ => ?_⟩
      rw [lettersOf_commit (by simp [commits]), lettersOf, List.filter_eq_nil_iff]
      intro d member
      simpa using Nat.ne_of_lt (letters_old run d member)

end

/-- **Dead letters.**  In every run from empty tables a dead row has exactly one dead
letter, any other row has none, and the letter has the row's type, error and attempts. -/
theorem one_letter_per_death (cfg : Config) (t₀ : Time) {t : History Sys Event} {s : Sys}
    (run : Runs cfg t₀ .empty t s) (j : JobId) (r : Job) (row : s.db.jobs.row j = some r) :
    (lettersOf s.db j).length = (if r.status = .dead then 1 else 0) ∧
      ∀ d ∈ lettersOf s.db j,
        d.type = r.type ∧ some d.error = r.error ∧ d.attempts = r.attempt := by
  have lettered := lettered_of_run run j r row
  by_cases dead : r.status = .dead
  · obtain ⟨d, only, agrees⟩ := lettered.dead dead
    rw [only, if_pos dead]
    refine ⟨rfl, fun d' member => ?_⟩
    rw [List.mem_singleton.1 member]
    exact agrees
  · rw [lettered.spared dead, if_neg dead]
    exact ⟨rfl, fun d member => by cases member⟩

/-- Job 1 dies at its second failure; job 2 has failed once and has no letter. -/
theorem one_letter_per_death_two_jobs :
    ∃ t s r₁ r₂, Runs demo 0 .empty t s ∧ s.db.jobs.row 1 = some r₁ ∧ s.db.jobs.row 2 = some r₂ ∧
      (lettersOf s.db 1).length = 1 ∧ (∀ d ∈ lettersOf s.db 1, some d.error = r₁.error) ∧
      (lettersOf s.db 2).length = 0 := by
  obtain ⟨t, s, run, after⟩ := demo_run
    ([.createJob { demoJob with type := "resize", maxRetries := 2 },
        .createJob { demoJob with type := "resize" }, .start 0, .worker ⟨0, 0⟩ (.connect true)] ++
      demoClaim ⟨0, 0⟩ [1] (some 1) ++ demoFail ⟨0, 0⟩ ++
      demoClaim ⟨0, 0⟩ [2] (some 2) ++ demoFail ⟨0, 0⟩ ++ [.tick 5] ++
      demoClaim ⟨0, 0⟩ [1] (some 1) ++ demoFail ⟨0, 0⟩)
    (fun out =>
      (out.2.db.jobs.row 1).any (fun r => r.status = .dead) ∧
        (out.2.db.jobs.row 2).any fun r => r.status = .pending)
    (by decide +kernel)
  simp only [Option.any_eq_true, decide_eq_true_eq] at after
  obtain ⟨⟨r₁, row₁, dead⟩, r₂, row₂, pending⟩ := after
  obtain ⟨one, agrees⟩ := one_letter_per_death demo 0 run 1 r₁ row₁
  obtain ⟨zero, -⟩ := one_letter_per_death demo 0 run 2 r₂ row₂
  rw [if_pos dead] at one
  rw [pending] at zero
  exact ⟨t, s, r₁, r₂, run, row₁, row₂, one, fun d member => (agrees d member).2.1, zero⟩

end TaskQueue
