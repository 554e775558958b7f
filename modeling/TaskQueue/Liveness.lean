/-
# TaskQueue.Liveness -- every job comes to an end

Safety says what never happens to a job; this is about what must happen.  In an infinite run
without accidents, in which the coroutines keep being scheduled and requests come to an end,
every job is at last done or dead, although nothing hands a job to a worker: workers poll, the
claim query takes advisory locks of rows that it does not return, and a sweep may give a job
back while it is executed.

* `Event.calm` is an event that is no accident, `Calm` what holds of a state without any.
* `owed` is the number of attempts that the table still allows.  Every outcome write and every
  cancellation lowers it, so from some moment on there are none (`Quiet`).
* From then on a row that is not final is pending for good, nobody holds its job, and the
  session that has its advisory lock could claim it (`claim_fails`).
* `every_job_ends` is the contradiction.
-/
import Mathlib.Algebra.Order.Archimedean.Basic
import TaskQueue.ProofOfLife
import TaskQueue.Responses
import TaskQueue.Shutdown

namespace TaskQueue

set_option autoImplicit false

open Transition

/-! ## Runs without accidents -/

/-- No process crashes or is told to stop, and no await of a worker raises but those that it
survives: its connection attempt and the `'done'` UPDATE. -/
def Event.calm : Event → Bool
  | .crash _ | .shutdown _ => false
  | .worker _ (.connect _) | .worker _ (.storeDone _) => true
  | .worker _ act => !act.raises
  | _ => true

/-- The worker is not on its way out. -/
def Pc.staying : Pc → Bool
  | .unlocking _ raised => !raised
  | .closing _ _ | .dead => false
  | _ => true

/-- What holds after a run without accidents. -/
structure Calm (s : Sys) : Prop where
  shutdown : ∀ p, s.shutdown p = false
  staying : ∀ w, (s.pc w).staying = true
  sessions : ∀ w j, s.locks.owner j = some w → (s.pc w).listening = true
  manned : ∀ j r, s.db.jobs.row j = some r → r.status = .claimed ∨ r.status = .running →
    ∃ w, Executes s w j

section

variable {cfg : Config} {t₀ : Time} {t : History Sys Event} {s s' : Sys} {e : Event}
  {w : WorkerId} {j : JobId} {r : Job}

theorem Executes.listening (executes : Executes s w j) : (s.pc w).listening = true := by
  obtain ⟨job, at_, -⟩ := executes
  rw [Sys.stages] at at_
  generalize s.pc w = pc at at_
  cases pc <;> first | rfl | cases at_

/-- A calm step of a worker does not take it out of its loop. -/
theorem calm_move {act : WorkerAct} {m : Move} (moved : s.runWorker cfg w act = some m)
    (going : s.shutdown w.proc = false) (staying : (s.pc w).staying = true)
    (quiet : (Event.worker w act).calm = true) :
    m.pc.staying = true ∧ ((s.pc w).listening = true → m.pc.listening = true) := by
  unfold Sys.runWorker at moved
  cases looks : (s.pc w).looking with
  | true =>
      have looking := runWorker_looks moved looks
      rw [going] at looking
      generalize s.pc w = pc, m.pc = pc' at looking
      cases looking <;> simp_all [Pc.staying, Pc.listening, Event.calm, WorkerAct.raises]
  | false =>
      have advance := runWorker_advance moved
      generalize s.pc w = pc at advance looks staying
      cases advance with
      | rests looks' _ _ _ _ => cases looks.symm.trans looks'
      | findsNone _ _ => cases looks
      | claimRaises _ => cases looks
      | claims _ _ _ => cases looks
      | @carries _ pc' _ _ _ _ running' =>
          cases pc' <;> first | exact ⟨rfl, fun _ => rfl⟩ | simp [Pc.stage] at running'
      | abandons leaves => cases leaves <;> cases quiet
      | unlocks id raised raises =>
          cases raised with
          | false => exact ⟨rfl, fun _ => rfl⟩
          | true => cases staying
      | closes _ _ _ => cases staying
      | _ => exact ⟨rfl, fun _ => rfl⟩

/-- A worker that is there stays where it is until its own next step. -/
theorem pc_waits (run : Runs cfg t₀ .empty t s) (taken : step cfg s e = some s')
    (quiet : e.calm = true) (there : s.pc w ≠ .absent) (other : ∀ act, e ≠ .worker w act) :
    s'.pc w = s.pc w := by
  cases worker_step taken w with
  | moves now _ _ _ => exact absurd now (other _)
  | stays _ _ pc _ => exact pc
  | spawns absent _ _ => exact absurd (pc_of_absent run w absent) there
  | dies now _ _ =>
      subst now
      cases quiet

theorem calm_staying (calm : Calm s) (taken : step cfg s e = some s') (quiet : e.calm = true)
    (w : WorkerId) : (s'.pc w).staying = true := by
  cases worker_step taken w with
  | moves now moved pc _ =>
      subst now
      rw [pc]
      exact (calm_move moved (calm.shutdown _) (calm.staying w) quiet).1
  | stays _ _ pc _ => exact (congrArg Pc.staying pc).trans (calm.staying w)
  | spawns _ pc _ =>
      rw [pc]
      rfl
  | dies now _ _ =>
      subst now
      cases quiet

/-- A worker that listens goes on listening. -/
theorem calm_listening (run : Runs cfg t₀ .empty t s) (calm : Calm s)
    (taken : step cfg s e = some s') (quiet : e.calm = true)
    (listening : (s.pc w).listening = true) : (s'.pc w).listening = true := by
  cases worker_step taken w with
  | moves now moved pc _ =>
      subst now
      rw [pc]
      exact (calm_move moved (calm.shutdown _) (calm.staying w) quiet).2 listening
  | stays _ _ pc _ => exact (congrArg Pc.listening pc).trans listening
  | spawns absent _ _ =>
      rw [pc_of_absent run w absent] at listening
      cases listening
  | dies now _ _ =>
      subst now
      cases quiet

/-- Only a worker in its loop takes a lock. -/
theorem listening_of_locks {act : WorkerAct} {m : Move} (moved : s.runWorker cfg w act = some m)
    (gains : m.locks.owner j = some w) (before : s.locks.owner j ≠ some w) :
    (s.pc w).listening = true := by
  have advance := Sys.advance moved
  generalize s.pc w = pc at advance
  cases advance with
  | findsNone _ _ => rfl
  | claimRaises _ => rfl
  | claims _ _ _ => rfl
  | unlocks _ _ _ => rfl
  | closes _ _ _ => rfl
  | _ => exact absurd gains before

theorem calm_sessions (run : Runs cfg t₀ .empty t s) (calm : Calm s)
    (taken : step cfg s e = some s') (quiet : e.calm = true)
    (owner : s'.locks.owner j = some w) : (s'.pc w).listening = true := by
  apply calm_listening run calm taken quiet
  by_cases before : s.locks.owner j = some w
  · exact calm.sessions w j before
  cases worker_step taken w with
  | moves _ moved _ locks => exact listening_of_locks moved (locks ▸ owner) before
  | stays _ _ _ locks => exact absurd ((SessionLock.Locks.owner_congr locks).1 owner) before
  | spawns _ _ locks => exact absurd ((SessionLock.Locks.owner_congr locks).1 owner) before
  | dies _ _ locks =>
      have held := SessionLock.Locks.count_pos_iff.2 owner
      rw [locks] at held
      cases held

/-- Without accidents a worker leaves its job only by an outcome write. -/
theorem executes_calm (run : Runs cfg t₀ .empty t s) (taken : step cfg s e = some s')
    (quiet : e.calm = true) (executes : Executes s w j) :
    Executes s' w j ∨ ∃ o, decided cfg s e j = some o := by
  rcases executes_next run executes taken with still | writes | ⟨-, act, pc', now, leaves⟩ | now
  · exact .inl still
  · exact .inr writes
  · subst now
    generalize s.pc w = pc at leaves
    cases leaves <;> cases quiet
  · subst now
    cases quiet

/-- Whoever claims or marks a row executes its job. -/
theorem calm_manned (run : Runs cfg t₀ .empty t s) (calm : Calm s) (taken : step cfg s e = some s')
    (quiet : e.calm = true) {r' : Job} (row' : s'.db.jobs.row j = some r')
    (status : r'.status = .claimed ∨ r'.status = .running) : ∃ w, Executes s' w j := by
  have stays {w : WorkerId} (undecided : decided cfg s e j = none) (executes : Executes s w j) :
      ∃ w, Executes s' w j := by
    rcases executes_calm run taken quiet executes with still | ⟨o, writes⟩
    · exact ⟨w, still⟩
    · cases undecided.symm.trans writes
  cases row : s.db.jobs.row j with
  | none =>
      rw [step_db taken] at row'
      obtain ⟨body, -, -, rfl⟩ := row_new row row'
      rcases status with status | status <;> cases status
  | some r =>
      have change := row_step run taken row
      rw [row'] at change
      cases change with
      | keeps undecided _ =>
          obtain ⟨w, executes⟩ := calm.manned j _ row status
          exact stays undecided executes
      | claims commits _ => exact ⟨_, executes_of_claims taken ⟨_, commits⟩⟩
      | @marks w job commits writes same _ =>
          exact stays (decided_none commits rfl) ⟨job, writes.job, same⟩
      | succeeds _ _ _ _ => rcases status with status | status <;> cases status
      | dies _ _ _ _ _ => rcases status with status | status <;> cases status
      | retries _ _ _ _ _ => rcases status with status | status <;> cases status
      | beats commits _ running =>
          obtain ⟨w, executes⟩ := calm.manned j r row (.inr running)
          exact stays (decided_none commits rfl) executes
      | reclaims _ _ => rcases status with status | status <;> cases status

theorem calm_step (run : Runs cfg t₀ .empty t s) (calm : Calm s) (quiet : e.calm = true)
    (taken : step cfg s e = some s') : Calm s' where
  shutdown p := by
    cases step_taken taken with
    | shutdown _ => cases quiet
    | _ => exact calm.shutdown p
  staying := calm_staying calm taken quiet
  sessions _ _ := calm_sessions run calm taken quiet
  manned _ _ := calm_manned run calm taken quiet

theorem calm_of_run (run : Runs cfg t₀ .empty t s)
    (quiet : EachStep (fun _ _ e => e.calm = true) t) : Calm s := by
  induction run with
  | nil =>
      exact ⟨fun _ => rfl, fun _ => rfl, (fun _ _ owner => by cases owner),
        (fun _ _ row => by cases row)⟩
  | snoc before taken ih => exact calm_step before (ih quiet.2) quiet.1 taken

/-! ## Attempts that are left -/

/-- How many attempts the row still allows. -/
def Job.left (r : Job) : ℕ :=
  if r.status = .done ∨ r.status = .dead then 0 else max 1 r.maxRetries - r.attempt

/-- How many attempts the table still allows. -/
def owed (db : Db) : ℕ := ∑ i ∈ Finset.range db.jobs.next, (db.jobs.row i).elim 0 Job.left

theorem Job.left_of_live (live : r.Live) : r.left = max 1 r.maxRetries - r.attempt :=
  if_neg fun final => Job.not_live_of_final final live

theorem left_pos (run : Runs cfg t₀ .empty t s) (row : s.db.jobs.row j = some r) (live : r.Live) :
    0 < r.left := by
  have balanced := (balanced_of_run run).1 j r row
  have within : r.attempt < max 1 r.maxRetries := by
    rw [balanced.attempt]
    exact (balanced.live_iff.1 live).2
  rw [Job.left_of_live live]
  omega

/-- No step gives a row more attempts; an outcome write or a cancellation takes some. -/
theorem left_step (run : Runs cfg t₀ .empty t s) (taken : step cfg s e = some s')
    (row : s.db.jobs.row j = some r) :
    (s'.db.jobs.row j).elim 0 Job.left ≤ r.left ∧
      ((∃ o, decided cfg s e j = some o) ∨ s'.db.jobs.row j = none →
        (s'.db.jobs.row j).elim 0 Job.left < r.left) := by
  have change := row_step run taken row
  have pos := left_pos run row
  generalize s'.db.jobs.row j = after at change
  -- a statement that leaves the row live and the attempts alone
  have same {r' : Job} (live : r.Live) (live' : r'.Live) (attempt : r'.attempt = r.attempt)
      (budget : r'.maxRetries = r.maxRetries) (undecided : decided cfg s e j = none) :
      (some r').elim 0 Job.left ≤ r.left ∧
        ((∃ o, decided cfg s e j = some o) ∨ some r' = none →
          (some r').elim 0 Job.left < r.left) := by
    refine ⟨?_, ?_⟩
    · rw [Option.elim_some, Job.left_of_live live, Job.left_of_live live', attempt, budget]
    · rintro (⟨o, writes⟩ | gone)
      · cases undecided.symm.trans writes
      · cases gone
  cases change with
  | keeps undecided _ =>
      refine ⟨le_refl _, ?_⟩
      rintro (⟨o, writes⟩ | gone)
      · cases undecided.symm.trans writes
      · cases gone
  | claims commits pending =>
      exact same (.inl pending) (.inr (.inl rfl)) rfl rfl (decided_none commits rfl)
  | marks commits _ _ holds =>
      exact same holds.live (.inr (.inr rfl)) rfl rfl (decided_none commits rfl)
  | beats commits _ running =>
      exact same (.inr (.inr running)) (.inr (.inr running)) rfl rfl (decided_none commits rfl)
  | reclaims commits stale =>
      exact same (.inr (Job.isStale_iff.1 stale).1) (.inl rfl) rfl rfl (decided_none commits rfl)
  | succeeds _ _ _ holds => exact ⟨Nat.zero_le _, fun _ => pos holds.live⟩
  | dies _ _ _ holds _ => exact ⟨Nat.zero_le _, fun _ => pos holds.live⟩
  | retries _ _ _ holds more =>
      have after (backoff : Time) (error : String) :
          (r.setRetry s.now backoff error).left = max 1 r.maxRetries - (r.attempt + 1) :=
        Job.left_of_live (.inl rfl)
      rw [Option.elim_some, after, Job.left_of_live holds.live]
      omega
  | deletes _ pending => exact ⟨Nat.zero_le _, fun _ => pos (.inl pending)⟩

theorem next_of_no_insert (taken : step cfg s e = some s') (noPost : ∀ body, e ≠ .createJob body) :
    s'.db.jobs.next = s.db.jobs.next := by
  rw [step_db taken]
  cases commits : committed cfg s e with
  | none => rfl
  | some st =>
      cases st with
      | insertJob body => exact absurd (insert_event commits) (noPost body)
      | _ => rfl

/-- Without new requests the table never owes more, and less after an outcome write or a
cancellation. -/
theorem owed_step (run : Runs cfg t₀ .empty t s) (taken : step cfg s e = some s')
    (noPost : ∀ body, e ≠ .createJob body) :
    owed s'.db ≤ owed s.db ∧ ∀ j r, s.db.jobs.row j = some r →
      (∃ o, decided cfg s e j = some o) ∨ s'.db.jobs.row j = none → owed s'.db < owed s.db := by
  have each (i : ℕ) (below : i ∈ Finset.range s.db.jobs.next) :
      (s'.db.jobs.row i).elim 0 Job.left ≤ (s.db.jobs.row i).elim 0 Job.left := by
    cases row : s.db.jobs.row i with
    | some r => exact (left_step run taken row).1
    | none =>
        rw [step_db taken, row_commit_none _ row (Finset.mem_range.1 below)]
  rw [owed, next_of_no_insert taken noPost]
  refine ⟨Finset.sum_le_sum each, fun j r row loses => ?_⟩
  refine Finset.sum_lt_sum each ⟨j, Finset.mem_range.2 (SerialTable.lt_next row), ?_⟩
  rw [row]
  exact (left_step run taken row).2 loses

end

/-! ## The long run -/

/-- An infinite run without accidents in which everybody who can go on does. -/
structure Orderly (states : ℕ → Sys) (events : ℕ → Event) : Prop where
  calm : ∀ n, (events n).calm = true
  /-- the awaits of a worker return, and its handlers end -/
  scheduled : ∀ n w, ((states n).pc w).listening = true →
    ∃ m, n ≤ m ∧ ∃ act, events m = .worker w act
  /-- some worker is connected -/
  connected : ∃ n w, ((states n).pc w).listening = true
  /-- requests for new jobs come to an end -/
  requests : ∃ N, ∀ n, N ≤ n → ∀ body, events n ≠ .createJob body
  /-- no job is for ever skipped for a transaction that has its row locked -/
  unskipped : ∀ j, ∃ N, ∀ n, N ≤ n → ∀ w plan, events n = .worker w (.claim plan) →
    j ∉ plan.rowLocked
  /-- the clock goes on -/
  time : ∀ τ, ∃ n, τ ≤ (states n).now

/-- Such a run, with what is known of its states. -/
structure LongRun (cfg : Config) (t₀ : Time) (states : ℕ → Sys) (events : ℕ → Event) : Prop where
  orderly : Orderly states events
  reached : ∀ n, ∃ t, Runs cfg t₀ .empty t (states n)
  steps : ∀ n, step cfg (states n) (events n) = some (states (n + 1))
  safe : ∀ n, Calm (states n)

/-- From moment `M` on no outcome is written to a row, and no row is deleted. -/
structure Quiet (cfg : Config) (states : ℕ → Sys) (events : ℕ → Event) (M : ℕ) : Prop where
  undecided : ∀ n, M ≤ n → ∀ j r, (states n).db.jobs.row j = some r →
    decided cfg (states n) (events n) j = none
  kept : ∀ n, M ≤ n → ∀ j r, (states n).db.jobs.row j = some r →
    ∃ r', (states (n + 1)).db.jobs.row j = some r'

section

variable {cfg : Config} {t₀ : Time} {t : History Sys Event} {s : Sys} {states : ℕ → Sys}
  {events : ℕ → Event} {M n : ℕ} {w : WorkerId} {j : JobId} {r : Job}

theorem Orderly.longRun (orderly : Orderly states events) (run : Runs cfg t₀ .empty t s)
    (quiet : EachStep (fun _ _ e => e.calm = true) t)
    (unfolds : Unfolds (step cfg) s states events) : LongRun cfg t₀ states events where
  orderly := orderly
  reached n := ⟨_, run.append (unfolds.run n)⟩
  steps := unfolds.steps
  safe := by
    have start : Calm (states 0) := by
      rw [unfolds.starts]
      exact calm_of_run run quiet
    intro n
    induction n with
    | zero => exact start
    | succ n ih =>
        exact calm_step (run.append (unfolds.run n)) ih (orderly.calm n) (unfolds.steps n)

/-- The table owes less and less, until nothing changes it. -/
theorem LongRun.quiet (long : LongRun cfg t₀ states events) : ∃ M, Quiet cfg states events M := by
  obtain ⟨N, noPost⟩ := long.orderly.requests
  have falls (n : ℕ) (late : N ≤ n) :
      owed (states (n + 1)).db ≤ owed (states n).db ∧
        ∀ j r, (states n).db.jobs.row j = some r →
          (∃ o, decided cfg (states n) (events n) j = some o) ∨
            (states (n + 1)).db.jobs.row j = none →
          owed (states (n + 1)).db < owed (states n).db := by
    obtain ⟨t, run⟩ := long.reached n
    exact owed_step run (long.steps n) (noPost n late)
  obtain ⟨M, late, settled⟩ := settles (f := fun n => owed (states n).db) fun n late =>
    (falls n late).1
  have same (n : ℕ) (later : M ≤ n) : owed (states (n + 1)).db = owed (states n).db :=
    (settled (n + 1) (Nat.le_succ_of_le later)).trans (settled n later).symm
  refine ⟨M, ⟨fun n later j r row => ?_, fun n later j r row => ?_⟩⟩
  · by_contra writes
    have less := (falls n (Nat.le_trans late later)).2 j r row
      (.inl (Option.ne_none_iff_exists'.1 writes))
    exact Nat.ne_of_lt less (same n later)
  · by_contra gone
    have less := (falls n (Nat.le_trans late later)).2 j r row
      (.inr (Option.eq_none_iff_forall_not_mem.2 fun r' there => gone ⟨r', there⟩))
    exact Nat.ne_of_lt less (same n later)

theorem LongRun.listening (long : LongRun cfg t₀ states events)
    (start : ((states n).pc w).listening = true) :
    ∀ k, n ≤ k → ((states k).pc w).listening = true :=
  persists (fun k _ listening => by
    obtain ⟨t, run⟩ := long.reached k
    exact calm_listening run (long.safe k) (long.steps k) (long.orderly.calm k) listening) start

/-- A step of a worker takes it to where its program goes on. -/
theorem LongRun.moved (long : LongRun cfg t₀ states events) {act : WorkerAct}
    (now : events n = .worker w act) :
    ∃ m, (states n).runWorker cfg w act = some m ∧ (states (n + 1)).pc w = m.pc := by
  have taken := long.steps n
  rw [now] at taken
  generalize states (n + 1) = s' at taken ⊢
  cases step_taken taken with
  | @worker _ _ m moved => exact ⟨m, moved, by simp [Sys.moveWorker]⟩

/-- The next step of a worker in its loop, which is still where it was. -/
theorem LongRun.next_step (long : LongRun cfg t₀ states events)
    (start : ((states n).pc w).listening = true) :
    ∃ m act, n ≤ m ∧ events m = .worker w act ∧ (states m).pc w = (states n).pc w := by
  obtain ⟨m, later, ⟨act, now⟩, same⟩ := persists_until
    (fun m => ∃ act, events m = .worker w act)
    (fun m => (states m).pc w = (states n).pc w) (long.orderly.scheduled n w start)
    (fun k _ same other => by
      obtain ⟨t, run⟩ := long.reached k
      have there : (states k).pc w ≠ .absent := by
        intro absent
        rw [← same, absent] at start
        cases start
      exact (pc_waits run (long.steps k) (long.orderly.calm k) there fun act now =>
        other ⟨act, now⟩).trans same) rfl
  exact ⟨m, act, later, now, same⟩

theorem LongRun.row_kept (quiet : Quiet cfg states events M) (late : M ≤ n)
    (row : ∃ r, (states n).db.jobs.row j = some r) :
    ∀ k, n ≤ k → ∃ r, (states k).db.jobs.row j = some r :=
  persists (fun k later there => by
    obtain ⟨r, row⟩ := there
    exact quiet.kept k (Nat.le_trans late later) j r row) row

/-- Nobody executes a job that has a row: the outcome would be written to it. -/
theorem LongRun.not_executes (long : LongRun cfg t₀ states events)
    (quiet : Quiet cfg states events M) (late : M ≤ n)
    (row : ∃ r, (states n).db.jobs.row j = some r) : ¬ Executes (states n) w j := by
  intro executes
  have there := LongRun.row_kept quiet late row
  obtain ⟨m, -, ⟨later, -⟩, writes⟩ := leads
    (fun k => n ≤ k ∧ Executes (states k) w j)
    (fun k => ∃ act, events k = .worker w act)
    (fun k => ∃ o, decided cfg (states k) (events k) j = some o)
    (fun k => ((states k).pc w).remaining)
    (fun k holds => long.orderly.scheduled k w holds.2.listening)
    (fun k holds other => by
      obtain ⟨later, job, at_, same⟩ := holds
      obtain ⟨t, run⟩ := long.reached k
      have still : (states (k + 1)).pc w = (states k).pc w := by
        refine pc_waits run (long.steps k) (long.orderly.calm k) (fun absent => ?_)
          fun act now => other ⟨act, now⟩
        rw [Sys.stages, absent] at at_
        cases at_
      rw [Executes, Sys.stages, still]
      exact ⟨⟨Nat.le_succ_of_le later, job, at_, same⟩, le_refl _⟩)
    (fun k holds now => by
      obtain ⟨later, executes⟩ := holds
      obtain ⟨act, now⟩ := now
      obtain ⟨t, run⟩ := long.reached k
      rcases executes_calm run (long.steps k) (long.orderly.calm k) executes with still | writes
      · obtain ⟨m, moved, pc⟩ := long.moved now
        refine .inr ⟨⟨Nat.le_succ_of_le later, still⟩, ?_⟩
        rw [pc]
        refine runWorker_remaining moved (.inr fun head => ?_)
        obtain ⟨job, at_, -⟩ := executes
        rw [Sys.stages, head] at at_
        cases at_
      · exact .inl writes)
    n ⟨Nat.le_refl n, executes⟩
  obtain ⟨o, writes⟩ := writes
  obtain ⟨r, row⟩ := there m later
  cases (quiet.undecided m (Nat.le_trans late later) j r row).symm.trans writes

/-- No worker claims a job any more. -/
theorem LongRun.not_claims (long : LongRun cfg t₀ states events)
    (quiet : Quiet cfg states events M) (late : M ≤ n) :
    ¬ Claims cfg (states n) (events n) w j := by
  intro claims
  obtain ⟨_, _, _, r, -, -, -, -, row, -⟩ := claims_step (long.steps n) claims
  exact long.not_executes quiet (Nat.le_succ_of_le late) (quiet.kept n late j r row)
    (executes_of_claims (long.steps n) claims)

/-- A row that is not final is pending, and stays as it is. -/
theorem LongRun.row_stays (long : LongRun cfg t₀ states events)
    (quiet : Quiet cfg states events M) (late : M ≤ n)
    (row : (states n).db.jobs.row j = some r) (live : r.Live) :
    r.status = .pending ∧ (states (n + 1)).db.jobs.row j = some r := by
  obtain ⟨t, run⟩ := long.reached n
  have idle (w : WorkerId) : ¬ Executes (states n) w j := long.not_executes quiet late ⟨r, row⟩
  have pending : r.status = .pending := by
    rcases live with pending | working
    · exact pending
    · obtain ⟨w, executes⟩ := (long.safe n).manned j r row working
      exact absurd executes (idle w)
  obtain ⟨r', row'⟩ := quiet.kept n late j r row
  have change := row_step run (long.steps n) row
  rw [row'] at change ⊢
  refine ⟨pending, ?_⟩
  cases change with
  | keeps _ _ => rfl
  | claims commits _ => exact absurd ⟨_, commits⟩ (long.not_claims quiet late)
  | marks _ writes same _ => exact absurd ⟨_, writes.job, same⟩ (idle _)
  | succeeds _ writes same _ => exact absurd ⟨_, writes.job, same⟩ (idle _)
  | dies _ writes same _ _ => exact absurd ⟨_, writes.job, same⟩ (idle _)
  | retries _ writes same _ _ => exact absurd ⟨_, writes.job, same⟩ (idle _)
  | beats _ _ running => cases pending.symm.trans running
  | reclaims _ stale =>
      rcases (Job.isStale_iff.1 stale).1 with status | status <;>
        cases pending.symm.trans status

/-! ## The advisory lock of a job that is left -/

/-- Nobody takes hold of a job that has a row. -/
theorem LongRun.unheld_step (long : LongRun cfg t₀ states events)
    (quiet : Quiet cfg states events M) (late : M ≤ n)
    (row : ∃ r, (states n).db.jobs.row j = some r)
    (unheld : ((states n).pc w).held? ≠ some j) : ((states (n + 1)).pc w).held? ≠ some j := by
  intro held
  cases worker_step (long.steps n) w with
  | moves now moved pc _ =>
      rw [pc] at held
      rcases (Sys.advance moved).held held with ⟨startedAt, claims⟩ | ⟨job, at_, same⟩
      · refine long.not_claims quiet late (w := w) (j := j) ⟨startedAt, ?_⟩
        rw [now]
        exact (committed_of_moved moved).trans claims
      · exact long.not_executes quiet late row ⟨job, at_, same⟩
  | stays _ _ pc _ =>
      rw [pc] at held
      exact unheld held
  | spawns _ pc _ =>
      rw [pc] at held
      cases held
  | dies _ pc _ =>
      rw [pc] at held
      cases held

/-- Where a worker is that holds a job without executing it. -/
theorem unlocking_of_held (staying : (s.pc w).staying = true) (held : (s.pc w).held? = some j)
    (idle : ¬ Executes s w j) : s.pc w = .unlocking j false := by
  unfold Executes Sys.stages at idle
  generalize s.pc w = pc at staying held idle
  cases pc with
  | unlocking id raised =>
      cases raised with
      | true => cases staying
      | false => rw [Option.some.inj held]
  | closing _ _ => cases staying
  | marking job => exact absurd ⟨job, rfl, Option.some.inj held⟩ idle
  | starting job => exact absurd ⟨job, rfl, Option.some.inj held⟩ idle
  | handling job => exact absurd ⟨job, rfl, Option.some.inj held⟩ idle
  | storing job _ => exact absurd ⟨job, rfl, Option.some.inj held⟩ idle
  | failing job _ => exact absurd ⟨job, rfl, Option.some.inj held⟩ idle
  | _ => cases held

/-- At last nobody holds the job. -/
theorem LongRun.released (long : LongRun cfg t₀ states events)
    (quiet : Quiet cfg states events M) (late : M ≤ n)
    (row : ∃ r, (states n).db.jobs.row j = some r) :
    ∃ m, n ≤ m ∧ ∀ k, m ≤ k → ∀ w, ((states k).pc w).held? ≠ some j := by
  have there := LongRun.row_kept quiet late row
  have stays (m : ℕ) (later : n ≤ m) (unheld : ∀ w, ((states m).pc w).held? ≠ some j) :
      ∀ k, m ≤ k → ∀ w, ((states k).pc w).held? ≠ some j :=
    persists (fun k after unheld w =>
      long.unheld_step quiet (by omega) (there k (by omega)) (unheld w)) unheld
  by_cases some_ : ∃ w, ((states n).pc w).held? = some j
  case neg => exact ⟨n, Nat.le_refl n, stays n (Nat.le_refl n) fun w held => some_ ⟨w, held⟩⟩
  obtain ⟨w, held⟩ := some_
  have at_ := unlocking_of_held ((long.safe n).staying w) held (long.not_executes quiet late row)
  obtain ⟨m, act, later, now, same⟩ := long.next_step (n := n) (w := w) (by rw [at_]; rfl)
  rw [at_] at same
  refine ⟨m + 1, Nat.le_succ_of_le later, stays (m + 1) (Nat.le_succ_of_le later) fun w' => ?_⟩
  obtain ⟨t, run⟩ := long.reached m
  by_cases mine : w' = w
  · subst mine
    obtain ⟨move, moved, pc⟩ := long.moved now
    have advance := Sys.advance moved
    rw [same] at advance
    rw [pc]
    cases advance with
    | unlocks _ _ _ => simp [Pc.held?]
    | rests looks _ _ _ _ => cases looks
    | carries _ running _ => cases running
    | abandons leaves => cases leaves
  · refine long.unheld_step quiet (by omega) (there m later) fun held' => mine ?_
    exact held_unique run held' (by rw [same]; rfl)

/-- Once nobody holds the job, the session that has its lock keeps it. -/
theorem LongRun.owner_kept (long : LongRun cfg t₀ states events)
    (unheld : ∀ k, n ≤ k → ∀ w, ((states k).pc w).held? ≠ some j)
    (owner : (states n).locks.owner j = some w) :
    ∀ k, n ≤ k → (states k).locks.owner j = some w :=
  persists (fun k later held => by
    cases worker_step (long.steps k) w with
    | moves _ moved _ locks =>
        rw [locks]
        refine (Sys.advance moved).owner_self held (fun raised at_ => ?_)
          fun raised left _ at_ => ?_
        · exact absurd (by rw [at_]; rfl) (unheld k later w)
        · have staying := (long.safe k).staying w
          rw [at_] at staying
          cases staying
    | stays _ _ _ locks => exact (SessionLock.Locks.owner_congr locks).2 held
    | spawns _ _ locks => exact (SessionLock.Locks.owner_congr locks).2 held
    | dies now _ _ =>
        have calm := long.orderly.calm k
        rw [now] at calm
        cases calm) owner

/-! ## A claim that fails -/

/-- A worker in its loop comes back to the start of a claim, at any later time. -/
theorem LongRun.begins (long : LongRun cfg t₀ states events)
    (listening : ((states n).pc w).listening = true) (τ : Time) :
    ∃ m startedAt, n ≤ m ∧ (states m).pc w = .begun startedAt ∧ τ ≤ startedAt := by
  obtain ⟨k, reached⟩ := long.orderly.time τ
  have clock : ∀ m, k ≤ m → τ ≤ (states m).now :=
    persists (fun m _ le => le.trans (step_now (long.steps m))) reached
  obtain ⟨m, later, ⟨after, -⟩, head, now⟩ := leads
    (fun m => max n k ≤ m ∧ ((states m).pc w).listening = true)
    (fun m => ∃ act, events m = .worker w act)
    (fun m => (states m).pc w = .loopHead ∧ ∃ act, events m = .worker w act)
    (fun m => ((states m).pc w).remaining)
    (fun m holds => long.orderly.scheduled m w holds.2)
    (fun m holds other => by
      obtain ⟨after, listening⟩ := holds
      obtain ⟨t, run⟩ := long.reached m
      have still : (states (m + 1)).pc w = (states m).pc w := by
        refine pc_waits run (long.steps m) (long.orderly.calm m) (fun absent => ?_)
          fun act now => other ⟨act, now⟩
        rw [absent] at listening
        cases listening
      rw [still]
      exact ⟨⟨Nat.le_succ_of_le after, listening⟩, le_refl _⟩)
    (fun m holds now => by
      obtain ⟨after, listening⟩ := holds
      by_cases head : (states m).pc w = .loopHead
      · exact .inl ⟨head, now⟩
      obtain ⟨act, now⟩ := now
      obtain ⟨t, run⟩ := long.reached m
      refine .inr ⟨⟨Nat.le_succ_of_le after, calm_listening run (long.safe m) (long.steps m)
        (long.orderly.calm m) listening⟩, ?_⟩
      obtain ⟨move, moved, pc⟩ := long.moved now
      rw [pc]
      exact runWorker_remaining moved (.inr head))
    (max n k) ⟨Nat.le_refl _, long.listening listening _ (Nat.le_max_left n k)⟩
  obtain ⟨act, now⟩ := now
  refine ⟨m + 1, (states m).now, by omega, ?_, clock m (by omega)⟩
  obtain ⟨move, moved, pc⟩ := long.moved now
  have looking := runWorker_looks moved (by rw [head]; rfl)
  rw [head, (long.safe m).shutdown] at looking
  rw [pc]
  generalize move.pc = pc' at looking ⊢
  cases looking with
  | enters _ => rfl
  | stops set => cases set

/-- From the start of a claim a worker comes to its evaluation, of a snapshot taken on the way. -/
theorem LongRun.evaluates (long : LongRun cfg t₀ states events) {startedAt : Time}
    (at_ : (states n).pc w = .begun startedAt) :
    ∃ k m plan, n ≤ k ∧ k ≤ m ∧
      (states m).pc w = .claiming (states k).db.jobs startedAt ∧
      events m = .worker w (.claim plan) := by
  obtain ⟨k, act, later, now, same⟩ := long.next_step (n := n) (w := w) (by rw [at_]; rfl)
  rw [at_] at same
  have selected : (states (k + 1)).pc w = .claiming (states k).db.jobs startedAt := by
    obtain ⟨move, moved, pc⟩ := long.moved now
    have looking := runWorker_looks moved (by rw [same]; rfl)
    rw [same] at looking
    rw [pc]
    generalize move.pc = pc' at looking ⊢
    cases looking
    rfl
  obtain ⟨m, act', later', now', same'⟩ :=
    long.next_step (n := k + 1) (w := w) (by rw [selected]; rfl)
  rw [selected] at same'
  refine ⟨k, m, ?_⟩
  have taken := long.steps m
  have calm := long.orderly.calm m
  rw [now'] at taken calm
  cases act' with
  | claim plan => exact ⟨plan, later, by omega, same', now'⟩
  | claimRaises _ => cases calm
  | _ => simp [step, control, Sys.runWorker, runWorker, executeJob, same'] at taken

/-- A claim that answers with a job commits. -/
theorem claims_of_returned {cfg : Config} {s s' : Sys} {w : WorkerId} {plan : ClaimPlan}
    {snapshot : SerialTable Job} {startedAt : Time} {id : JobId}
    (taken : step cfg s (.worker w (.claim plan)) = some s')
    (at_ : s.pc w = .claiming snapshot startedAt) (returned : plan.returned = some id) :
    Claims cfg s (.worker w (.claim plan)) w id := by
  have admissible := claim_admissible taken at_
  obtain ⟨-, -, due⟩ := claim_facts admissible returned
  obtain ⟨r, row, -⟩ := eligible_iff.1 due
  refine ⟨startedAt, ?_⟩
  simp [committed, Sys.runWorker, runWorker, tryClaim, at_, admissible, returned, row]

/-- While a job is left pending, every worker comes to a moment at which another session has
the advisory lock of that job. -/
theorem LongRun.claim_fails (long : LongRun cfg t₀ states events)
    (quiet : Quiet cfg states events M) (late : M ≤ n)
    (left : ∀ k, n ≤ k → (states k).db.jobs.row j = some r) (pending : r.status = .pending)
    (listening : ((states n).pc w).listening = true) :
    ∃ m w', n ≤ m ∧ w' ≠ w ∧ (states m).locks.owner j = some w' := by
  obtain ⟨N, unskipped⟩ := long.orderly.unskipped j
  obtain ⟨b, startedAt, begins, at_, due⟩ := long.begins
    (long.listening listening (max n N) (Nat.le_max_left n N)) r.runAt
  obtain ⟨k, m, plan, afterBegin, afterSelect, claiming, now⟩ := long.evaluates at_
  have taken := long.steps m
  rw [now] at taken
  have admissible := claim_admissible taken claiming
  have nothing : plan.returned = none := by
    by_contra some_
    obtain ⟨id, returned⟩ := Option.ne_none_iff_exists'.1 some_
    apply long.not_claims quiet (n := m) (by omega) (w := w) (j := id)
    rw [now]
    exact claims_of_returned taken claiming returned
  have offer : OnOffer (states m) (states k).db.jobs startedAt plan j :=
    ⟨eligible_iff.2 ⟨r, left k (by omega), pending, due⟩,
      eligible_iff.2 ⟨r, left m (by omega), pending, due⟩, unskipped m (by omega) w plan now⟩
  have foreign := foreign_of_ahead admissible offer (by rw [nothing]; rfl)
  rw [SessionLock.Locks.Obtainable, not_or] at foreign
  obtain ⟨w', owner⟩ := Option.ne_none_iff_exists'.1 foreign.1
  exact ⟨m, w', by omega, fun same => foreign.2 (same ▸ owner), owner⟩

end

/-- **Every job comes to an end.**  In every infinite run without accidents in which workers
keep being scheduled and their handlers end, some worker is connected, requests for new jobs
come to an end and the clock goes on, there is a moment from which on every row is done or
dead: whatever handlers return or raise, however claims and advisory locks interleave,
whatever the reapers sweep and whatever is cancelled. -/
theorem every_job_ends (cfg : Config) (t₀ : Time) {t : History Sys Event} {s : Sys}
    (run : Runs cfg t₀ .empty t s) (quiet : EachStep (fun _ _ e => e.calm = true) t)
    (states : ℕ → Sys) (events : ℕ → Event) (unfolds : Unfolds (step cfg) s states events)
    (orderly : Orderly states events) :
    ∃ N, ∀ n, N ≤ n → ∀ j r, (states n).db.jobs.row j = some r →
      r.status = .done ∨ r.status = .dead := by
  have long := orderly.longRun run quiet unfolds
  obtain ⟨M, quiet⟩ := long.quiet
  refine ⟨M, fun n late j r row => ?_⟩
  by_contra unfinished
  obtain ⟨t, reached⟩ := long.reached n
  have live : r.Live := by
    have notFailed := (consistent_of_run reached j r row).status
    unfold Job.Live
    cases status : r.status <;> simp_all
  -- the row stays as it is, and nobody holds the job at last
  have left : ∀ k, n ≤ k → (states k).db.jobs.row j = some r := persists (fun k later row =>
    (long.row_stays quiet (Nat.le_trans late later) row live).2) row
  have pending := (long.row_stays quiet late row live).1
  obtain ⟨m, later, unheld⟩ := long.released quiet late ⟨r, row⟩
  -- a worker finds the lock in the session of another, and that one in yet another
  obtain ⟨c, w, connected⟩ := orderly.connected
  have start := long.listening connected (max c m) (Nat.le_max_left c m)
  have left' (i : ℕ) (after : m ≤ i) : ∀ k, i ≤ k → (states k).db.jobs.row j = some r :=
    fun k afterwards => left k (by omega)
  obtain ⟨i, w', after, -, owner⟩ := long.claim_fails quiet (n := max c m) (by omega)
    (left' _ (Nat.le_max_right c m)) pending start
  obtain ⟨k, w'', after', other, owner'⟩ := long.claim_fails quiet (n := i) (by omega)
    (left' i (by omega)) pending ((long.safe i).sessions w' j owner)
  have kept := long.owner_kept (n := i) (fun k later => unheld k (by omega)) owner k after'
  exact other (Option.some.inj (owner'.symm.trans kept))

/-! ## An orderly run -/

/-- A calm step before an orderly run. -/
theorem Orderly.prepend {cfg : Config} {t₀ : Time} {t : History Sys Event} {s s' : Sys}
    {states : ℕ → Sys} {events : ℕ → Event} {e : Event} (orderly : Orderly states events)
    (run : Runs cfg t₀ .empty t s) (quiet : EachStep (fun _ _ e => e.calm = true) t)
    (taken : step cfg s e = some s') (calm : e.calm = true) (starts : states 0 = s') :
    Orderly (Transition.prepend s states) (Transition.prepend e events) where
  calm
    | 0 => calm
    | n + 1 => orderly.calm n
  scheduled n w listening := by
    have later : ∃ k, ((states k).pc w).listening = true ∧ n ≤ k + 1 := by
      cases n with
      | zero =>
          refine ⟨0, ?_, Nat.zero_le _⟩
          rw [starts]
          exact calm_listening run (calm_of_run run quiet) taken calm listening
      | succ n => exact ⟨n, listening, Nat.le_refl _⟩
    obtain ⟨k, listening, below⟩ := later
    obtain ⟨m, after, now⟩ := orderly.scheduled k w listening
    exact ⟨m + 1, by omega, now⟩
  connected := by
    obtain ⟨n, w, listening⟩ := orderly.connected
    exact ⟨n + 1, w, listening⟩
  requests := by
    obtain ⟨N, none_⟩ := orderly.requests
    refine ⟨N + 1, fun n late body => ?_⟩
    obtain ⟨m, rfl⟩ := Nat.exists_eq_succ_of_ne_zero (n := n) (by omega)
    exact none_ m (Nat.le_of_succ_le_succ late) body
  unskipped j := by
    obtain ⟨N, none_⟩ := orderly.unskipped j
    refine ⟨N + 1, fun n late w plan => ?_⟩
    obtain ⟨m, rfl⟩ := Nat.exists_eq_succ_of_ne_zero (n := n) (by omega)
    exact none_ m (Nat.le_of_succ_le_succ late) w plan
  time τ := by
    obtain ⟨n, after⟩ := orderly.time τ
    exact ⟨n + 1, after⟩

/-- A worker that finds nothing claims, waits and claims again, once a second. -/
def idleEvent (w : WorkerId) : ℕ → Event
  | 0 => .worker w .enterLoop
  | 1 => .worker w .select
  | 2 => .worker w (.claim (demoPlan [] none))
  | 3 => .worker w .wake
  | _ => .tick 1

def idlePc (jobs : SerialTable Job) (now : Time) : ℕ → Pc
  | 1 => .begun now
  | 2 => .claiming jobs now
  | 3 => .waiting
  | _ => .loopHead

def idleState (s : Sys) (w : WorkerId) (round turn : ℕ) : Sys :=
  { s with
    now := s.now + round
    pc := Function.update s.pc w (idlePc s.db.jobs (s.now + round) turn) }

section

variable {cfg : Config} {s : Sys} {w : WorkerId}

theorem idle_step (going : s.shutdown w.proc = false) (clear : (s.notify w).isSet = false)
    (nothing : ∀ now id, eligible now s.db.jobs id = false) (round : ℕ) {turn : ℕ}
    (below : turn < 4) :
    step cfg (idleState s w round turn) (idleEvent w turn) =
      some (idleState s w round (turn + 1)) := by
  have admissible (now : Time) :
      (demoPlan [] none).Admissible s.locks w now s.db.jobs s.db.jobs := by
    simp [ClaimPlan.Admissible, demoPlan, nothing]
  have awake : Function.update s.notify w { s.notify w with isSet := false } = s.notify := by
    rw [← clear]
    exact Function.update_eq_self w s.notify
  obtain rfl | rfl | rfl | rfl : turn = 0 ∨ turn = 1 ∨ turn = 2 ∨ turn = 3 := by omega
  · simp [step, control, committed, Sys.runWorker, runWorker, idleState, idlePc, idleEvent,
      Sys.moveWorker, Db.commit, going]
  · simp [step, control, committed, Sys.runWorker, runWorker, idleState, idlePc, idleEvent,
      Sys.moveWorker, Db.commit]
  · have answer : (demoPlan [] none).returned = none := rfl
    have calls : (demoPlan [] none).lockCalls = [] := rfl
    simp [step, control, committed, Sys.runWorker, runWorker, idleState, idlePc, idleEvent,
      Sys.moveWorker, Db.commit, tryClaim, admissible, answer, calls, SessionLock.Locks.lockAll]
  · simp [step, control, committed, Sys.runWorker, runWorker, idleState, idlePc, idleEvent,
      Sys.moveWorker, Db.commit, awake]

theorem idle_round (round : ℕ) :
    step cfg (idleState s w round 4) (idleEvent w 4) = some (idleState s w (round + 1) 0) := by
  simp [step, control, committed, Db.commit, idleState, idlePc, idleEvent, add_assoc]

/-- An idle worker can go on like this for ever. -/
theorem idle_unfolds (head : s.pc w = .loopHead) (going : s.shutdown w.proc = false)
    (clear : (s.notify w).isSet = false)
    (nothing : ∀ now id, eligible now s.db.jobs id = false) :
    Unfolds (step cfg) s (fun n => idleState s w (n / 5) (n % 5))
      (fun n => idleEvent w (n % 5)) where
  starts := by
    simp [idleState, idlePc, ← head]
  steps n := by
    by_cases last : n % 5 = 4
    · have next : (n + 1) / 5 = n / 5 + 1 ∧ (n + 1) % 5 = 0 := by omega
      simp only [last, next.1, next.2]
      exact idle_round _
    · have next : (n + 1) / 5 = n / 5 ∧ (n + 1) % 5 = n % 5 + 1 := by omega
      rw [next.1, next.2]
      exact idle_step going clear nothing _ (by omega)

/-- What an idle worker does. -/
theorem idleEvent_cases (turn : ℕ) :
    (idleEvent w turn).calm = true ∧ (∀ body, idleEvent w turn ≠ .createJob body) ∧
      ∀ w' plan, idleEvent w turn = .worker w' (.claim plan) → plan.rowLocked = [] := by
  unfold idleEvent
  split
  case h_3 =>
    refine ⟨rfl, (fun _ same => by cases same), fun _ _ same => ?_⟩
    cases same
    rfl
  all_goals exact ⟨rfl, (fun _ same => by cases same), fun _ _ same => by cases same⟩

theorem idle_orderly (alone : ∀ w', w' ≠ w → (s.pc w').listening = false) :
    Orderly (fun n => idleState s w (n / 5) (n % 5)) (fun n => idleEvent w (n % 5)) where
  calm n := (idleEvent_cases _).1
  scheduled n w' listening := by
    have mine : w' = w := by
      by_contra other
      simp only [idleState, Function.update_of_ne other, alone w' other] at listening
      cases listening
    subst mine
    refine ⟨5 * n, by omega, .enterLoop, ?_⟩
    rw [Nat.mul_mod_right, idleEvent]
  connected := ⟨0, w, by simp [idleState, idlePc, Pc.listening]⟩
  requests := ⟨0, fun n _ => (idleEvent_cases _).2.1⟩
  unskipped j := by
    refine ⟨0, fun n _ w' plan same => ?_⟩
    rw [(idleEvent_cases _).2.2 w' plan same]
    exact List.not_mem_nil
  time τ := by
    obtain ⟨n, after⟩ := exists_nat_ge (τ - s.now)
    refine ⟨5 * n, ?_⟩
    simp only [idleState, Nat.mul_div_cancel_left n (show 0 < 5 by decide)]
    linarith

end

/-- A finite run before an orderly one. -/
theorem orderly_after {cfg : Config} {t₀ : Time} {t u : History Sys Event} {s s' : Sys}
    {states : ℕ → Sys} {events : ℕ → Event} (run : Runs cfg t₀ .empty t s)
    (calm : EachStep (fun _ _ e => e.calm = true) (u ++ t)) (rest : Run (step cfg) s u s')
    (unfolds : Unfolds (step cfg) s' states events) (orderly : Orderly states events) :
    ∃ states' events', Unfolds (step cfg) s states' events' ∧ Orderly states' events' := by
  induction rest generalizing states events with
  | nil => exact ⟨states, events, unfolds, orderly⟩
  | snoc before taken ih =>
      exact ih calm.2 (unfolds.prepend taken)
        (orderly.prepend (run.append before) calm.2 taken calm.1 unfolds.starts)

/-- A worker that never acts does not listen. -/
theorem not_listening_of_only {cfg : Config} {t₀ : Time} {t : History Sys Event} {s : Sys}
    {w w' : WorkerId} (run : Runs cfg t₀ .empty t s)
    (only : ∀ a w' act, (a, .worker w' act) ∈ t → w' = w) (other : w' ≠ w) :
    (s.pc w').listening = false := by
  induction run with
  | nil => rfl
  | @snoc t a e a' before taken ih =>
      have ih := ih fun a w' act member => only a w' act (List.mem_cons_of_mem _ member)
      cases worker_step taken w' with
      | moves now _ _ _ =>
          subst now
          exact absurd (only a w' _ List.mem_cons_self) other
      | stays _ _ pc _ => exact (congrArg Pc.listening pc).trans ih
      | spawns _ pc _ =>
          rw [pc]
          rfl
      | dies _ pc _ =>
          rw [pc]
          rfl

/-- Job 1 has been posted and worker `⟨0, 0⟩` is connected; it does the job and polls on. -/
theorem every_job_ends_done :
    ∃ t s states events, Runs demo 0 .empty t s ∧ Unfolds (step demo) s states events ∧
      (s.db.jobs.row 1).any (fun r => r.status = .pending) = true ∧
      ∃ N, ∀ n, N ≤ n → ∀ j r, (states n).db.jobs.row j = some r →
        r.status = .done ∨ r.status = .dead := by
  obtain ⟨t, s, run, after⟩ := demo_run
    [.createJob demoJob, .start 0, .worker ⟨0, 0⟩ (.connect true)]
    (fun out => (out.1.all fun x => x.2.calm) && onlyWorker ⟨0, 0⟩ out.1 &&
      (out.2.db.jobs.row 1).any (fun r => r.status = .pending) &&
      (exec (step demo) [] out.2 (demoClaim ⟨0, 0⟩ [1] (some 1) ++ demoDone ⟨0, 0⟩)).any fun out =>
        (out.1.all fun x => x.2.calm) && onlyWorker ⟨0, 0⟩ out.1 &&
          (step demo out.2 (.worker ⟨0, 0⟩ .enterLoop)).isSome && !out.2.shutdown 0 &&
          !(out.2.notify ⟨0, 0⟩).isSet &&
          out.2.db.jobs.keys.all fun id => (out.2.db.jobs.row id).all fun r => r.status ≠ .pending)
    (by decide +kernel)
  simp only [Bool.and_eq_true] at after
  obtain ⟨⟨⟨calm, only⟩, pending⟩, more⟩ := after
  rw [Option.any_eq_true] at more
  obtain ⟨⟨u, s'⟩, replayed, after⟩ := more
  simp only [Bool.and_eq_true, Bool.not_eq_true'] at after
  obtain ⟨⟨⟨⟨⟨calm', only'⟩, enabled⟩, going⟩, clear⟩, final⟩ := after
  have rest : Run (step demo) s u s' := exec_run .nil replayed
  have nothing (now : Time) (id : JobId) : eligible now s'.db.jobs id = false := by
    by_contra due
    obtain ⟨r, row, pending, -⟩ := eligible_iff.1 (eq_true_of_ne_false due)
    have there := List.all_eq_true.1 final id (SerialTable.mem_keys.2 ⟨r, row⟩)
    simp [row, pending] at there
  have alone (w' : WorkerId) (other : w' ≠ ⟨0, 0⟩) : (s'.pc w').listening = false := by
    refine not_listening_of_only (run.append rest) (fun a w'' act member => ?_) other
    rcases List.mem_append.1 member with late | early
    · exact only_of_onlyWorker only' a w'' act late
    · exact only_of_onlyWorker only a w'' act early
  have quiet : EachStep (fun _ _ e => e.calm = true) t := eachStep_of_all calm
  have both : EachStep (fun _ _ e => e.calm = true) (u ++ t) :=
    eachStep_of_all (by rw [List.all_append, calm, calm']; rfl)
  obtain ⟨states, events, unfolds, orderly⟩ := orderly_after run both rest
    (idle_unfolds (loopHead_of_enabled enabled) going clear nothing) (idle_orderly alone)
  exact ⟨t, s, states, events, run, unfolds, pending,
    every_job_ends demo 0 run quiet states events unfolds orderly⟩

end TaskQueue
