/-
# TaskQueue.Exclusion -- at most one worker executes a job

The row does not say who executes a job: the reaper may put it back to `'pending'`
under its worker.  What does is the advisory lock.  `Between` reads off the history
that a worker has claimed a job and neither unlocked it nor exited; such a worker owns
the lock (`owner_of_between`), and a lock has one owner.

* `between_of_held` ties the program points to the history, `owner_of_held` to the lock.
-/
import TaskQueue.System

namespace TaskQueue

set_option autoImplicit false

open Transition

/-- The step commits `w`'s claim of `j`. -/
def Claims (cfg : Config) (s : Sys) (e : Event) (w : WorkerId) (j : JobId) : Prop :=
  ∃ startedAt, committed cfg s e = some (.claim w j startedAt)

/-- `w` gives the lock of `j` back, or its `run_worker` exits. -/
inductive Ends (w : WorkerId) (j : JobId) : Sys → Event → Prop
  | unlock {s : Sys} {raised : Bool} (at_ : s.pc w = .unlocking j raised) :
      Ends w j s (.worker w (.unlock false))
  | exit {s : Sys} {raised : Bool} {left : Option JobId} (at_ : s.pc w = .closing raised left)
      (raises : Bool) : Ends w j s (.worker w (.close raises))
  | crash {s : Sys} : Ends w j s (.crash w.proc)

/-- `w` is between the commit of its claim of `j` and its unlock of `j`, or its exit. -/
def Between (cfg : Config) (w : WorkerId) (j : JobId) : History Sys Event → Prop
  | [] => False
  | (s, e) :: t => Claims cfg s e w j ∨ (Between cfg w j t ∧ ¬ Ends w j s e)

section

variable {cfg : Config} {t₀ : Time} {db : Db} {t : History Sys Event} {s s' : Sys} {e : Event}
  {w : WorkerId} {j : JobId}

/-- A claim is the step of a worker that evaluates the claim query. -/
theorem claims_step (taken : step cfg s e = some s') (claims : Claims cfg s e w j) :
    ∃ snapshot startedAt plan r,
      e = .worker w (.claim plan) ∧ s.pc w = .claiming snapshot startedAt ∧
      plan.Admissible s.locks w startedAt snapshot s.db.jobs ∧ plan.returned = some j ∧
      s.db.jobs.row j = some r ∧ s'.locks = s.locks.lockAll w plan.lockCalls ∧
      s'.pc = Function.update s.pc w (.marking (.ofRow j r)) := by
  obtain ⟨startedAt, commits⟩ := claims
  cases author_of_committed taken commits with
  | @worker w' act _ _ =>
      cases step_taken taken with
      | worker moved =>
          rw [committed_of_moved moved] at commits
          have advance := Sys.advance moved
          generalize at_ : s.pc w' = pc at advance
          cases advance with
          | claims admissible returned row =>
              cases commits
              exact ⟨_, _, _, _, rfl, at_, admissible, returned, row, rfl, rfl⟩
          | fails job error =>
              simp only [handleFailure, Option.some.injEq] at commits
              split at commits <;> cases commits
          | _ => cases commits

/-- The claim's `NOW()` is that of the transaction that the worker is in. -/
theorem claim_at {startedAt : Time} (taken : step cfg s e = some s')
    (commits : committed cfg s e = some (.claim w j startedAt)) :
    (∃ snapshot, s.pc w = .claiming snapshot startedAt) ∧
      ∃ r, s.db.jobs.row j = some r ∧ r.status = .pending ∧ r.runAt ≤ startedAt := by
  obtain ⟨snapshot, startedAt', plan, r, rfl, at_, admissible, returned, row, -⟩ :=
    claims_step taken ⟨startedAt, commits⟩
  have same : startedAt' = startedAt := by
    simpa [committed, Sys.runWorker, runWorker, tryClaim, at_, admissible, returned, row]
      using commits
  subst same
  exact ⟨⟨snapshot, at_⟩, eligible_iff.1 (claim_facts admissible returned).2.2⟩

/-- The claimed row is pending, and the worker had no job. -/
theorem claims_pending (taken : step cfg s e = some s') (claims : Claims cfg s e w j) {r : Job}
    (row : s.db.jobs.row j = some r) : r.status = .pending ∧ (s.pc w).stage = .idle := by
  obtain ⟨_, _, _, _, -, at_, admissible, returned, -⟩ := claims_step taken claims
  have eligible := (claim_facts admissible returned).2.2
  rw [eligible_iff] at eligible
  obtain ⟨r', row', pending, -⟩ := eligible
  cases row.symm.trans row'
  exact ⟨pending, by rw [at_]; rfl⟩

/-- What a worker's own step, other than its unlock or exit, leaves of its locks. -/
theorem Advance.owner_self {jobs : SerialTable Job} {locks : LockTable} {pc : Pc} {act : WorkerAct}
    {m : Move} (advance : Advance cfg jobs locks w pc act m) (held : locks.owner j = some w)
    (unlocks : ∀ raised, pc = .unlocking j raised → act ≠ .unlock false)
    (closes : ∀ raised left raises, pc = .closing raised left → act ≠ .close raises) :
    m.locks.owner j = some w := by
  cases advance with
  | findsNone _ _ => exact SessionLock.Locks.owner_lockAll_self _ held
  | claimRaises scanned => exact SessionLock.Locks.owner_lockAll_self _ held
  | claims _ _ _ => exact SessionLock.Locks.owner_lockAll_self _ held
  | unlocks id raised raises =>
      cases raises with
      | false =>
          have other : j ≠ id := fun same => unlocks raised (by rw [same]) rfl
          simpa [SessionLock.Locks.owner_unlock_ne _ _ other] using held
      | true => exact held
  | closes raised left raises => exact absurd rfl (closes raised left raises rfl)
  | _ => exact held

theorem owner_of_claims (taken : step cfg s e = some s') (claims : Claims cfg s e w j) :
    s'.locks.owner j = some w := by
  obtain ⟨_, _, plan, _, -, -, admissible, returned, -, locks, -⟩ := claims_step taken claims
  obtain ⟨called, obtainable, -⟩ := claim_facts admissible returned
  rw [locks, SessionLock.Locks.owner_lockAll, if_pos ⟨called, obtainable⟩]

/-- **The lock invariant**: whoever is between claim and unlock of a job owns its lock. -/
theorem owner_of_between (run : Runs cfg t₀ db t s) :
    Between cfg w j t → s.locks.owner j = some w := by
  refine run.invariant (P := fun t s => Between cfg w j t → s.locks.owner j = some w) False.elim ?_
  intro t s e s' _ ih taken inside
  rcases inside with claims | ⟨before, still⟩
  · exact owner_of_claims taken claims
  · have held := ih before
    cases worker_step taken w with
    | moves now moved _ locks =>
        subst now
        rw [locks]
        refine (Sys.advance moved).owner_self held ?_ ?_
        · rintro raised at_ rfl
          exact still (.unlock at_)
        · rintro raised left raises at_ rfl
          exact still (.exit at_ raises)
    | stays _ _ _ locks => exact (SessionLock.Locks.owner_congr locks).2 held
    | spawns _ _ locks => exact (SessionLock.Locks.owner_congr locks).2 held
    | dies now _ _ =>
        subst now
        exact absurd .crash still

theorem claims_of_between (run : Runs cfg t₀ db t s) :
    Between cfg w j t →
      ∃ a plan, (a, .worker w (.claim plan)) ∈ t ∧ plan.returned = some j := by
  refine run.invariant (P := fun t _ => Between cfg w j t →
    ∃ a plan, (a, .worker w (.claim plan)) ∈ t ∧ plan.returned = some j) False.elim ?_
  intro t s e s' _ ih taken inside
  rcases inside with claims | ⟨before, -⟩
  · obtain ⟨_, _, plan, _, rfl, -, -, returned, -⟩ := claims_step taken claims
    exact ⟨s, plan, List.mem_cons_self, returned⟩
  · obtain ⟨a, plan, member, returned⟩ := ih before
    exact ⟨a, plan, List.mem_cons_of_mem _ member, returned⟩

/-- A worker that holds a job after a step has just claimed it, or was between its claim
and its outcome write before. -/
theorem Advance.held {jobs : SerialTable Job} {locks : LockTable} {pc : Pc} {act : WorkerAct}
    {m : Move} (advance : Advance cfg jobs locks w pc act m) (held : m.pc.held? = some j) :
    (∃ startedAt, m.statement = some (.claim w j startedAt)) ∨
      ∃ job, pc.stage.job? = some job ∧ job.id = j := by
  cases advance with
  | rests _ _ free' _ _ =>
      rw [free'] at held
      cases held
  | findsNone _ _ => cases held
  | claimRaises _ => cases held
  | claims _ _ _ =>
      cases held
      exact .inl ⟨_, rfl⟩
  | marks job => exact .inr ⟨job, rfl, Option.some.inj held⟩
  | carries payload running running' =>
      have same := Pc.held_of_job (congrArg Stage.job? running')
      exact .inr ⟨_, congrArg Stage.job? running, Option.some.inj (same.symm.trans held)⟩
  | succeeds job _ => exact .inr ⟨job, rfl, Option.some.inj held⟩
  | fails job _ => exact .inr ⟨job, rfl, Option.some.inj held⟩
  | abandons leaves => cases leaves <;> exact .inr ⟨_, rfl, Option.some.inj held⟩
  | unlocks id raised _ => cases raised <;> cases held
  | closes _ _ _ => cases held

/-- Whoever is between its claim and its outcome write does not end by a step of its own. -/
theorem not_ends_of_job {job : Record} (at_ : (s.pc w).stage.job? = some job)
    (alive : e ≠ .crash w.proc) : ¬ Ends w j s e := by
  intro ends
  cases ends with
  | unlock unlocking =>
      rw [unlocking] at at_
      cases at_
  | exit closing raises =>
      rw [closing] at at_
      cases at_
  | crash => exact alive rfl

theorem between_of_held (run : Runs cfg t₀ db t s) :
    (s.pc w).held? = some j → Between cfg w j t := by
  refine run.invariant (P := fun t s => (s.pc w).held? = some j → Between cfg w j t)
    (fun held => by cases held) ?_
  intro t s e s' _ ih taken held
  cases worker_step taken w with
  | moves now moved pc _ =>
      subst now
      rw [pc] at held
      rcases (Sys.advance moved).held held with ⟨startedAt, claims⟩ | ⟨job, at_, same⟩
      · exact .inl ⟨startedAt, (committed_of_moved moved).trans claims⟩
      · refine .inr ⟨ih ?_, not_ends_of_job at_ (by simp)⟩
        rw [Pc.held_of_job at_, same]
  | stays other alive pc _ =>
      rw [pc] at held
      refine .inr ⟨ih held, fun ends => ?_⟩
      cases ends with
      | unlock _ => exact other _ rfl
      | exit _ _ => exact other _ rfl
      | crash => exact alive rfl
  | spawns _ pc _ =>
      rw [pc] at held
      cases held
  | dies _ pc _ =>
      rw [pc] at held
      cases held

/-- The lock invariant, at the program points. -/
theorem owner_of_held (run : Runs cfg t₀ db t s) (held : (s.pc w).held? = some j) :
    s.locks.owner j = some w :=
  owner_of_between run (between_of_held run held)

theorem held_unique (run : Runs cfg t₀ db t s) {w' : WorkerId} (held : (s.pc w).held? = some j)
    (held' : (s.pc w').held? = some j) : w = w' :=
  Option.some.inj ((owner_of_held run held).symm.trans (owner_of_held run held'))

end

/-- **Mutual exclusion of executions.**  In every run, from any tables, at most one worker
is between the commit of its claim of a job and its unlock of that job, or its exit;
every program point from the claim to the unlock lies in between. -/
theorem execution_exclusive (cfg : Config) (t₀ : Time) (db : Db) {t : History Sys Event} {s : Sys}
    (run : Runs cfg t₀ db t s) (j : JobId) :
    (∀ w w', Between cfg w j t → Between cfg w' j t → w = w') ∧
      ∀ w, (s.pc w).held? = some j → Between cfg w j t := by
  refine ⟨?_, fun w held => between_of_held run held⟩
  intro w w' inside inside'
  have owner := owner_of_between run inside
  have owner' := owner_of_between run inside'
  exact Option.some.inj (owner.symm.trans owner')

/-- A sweep takes job 1 from a worker that still executes it; the next worker finds the
row pending and does not get it. -/
theorem execution_exclusive_swept :
    ∃ t s, Runs demo 0 .empty t s ∧ (∃ r, s.db.jobs.row 1 = some r ∧ r.status = .pending) ∧
      Between demo ⟨0, 0⟩ 1 t ∧ ∀ w, Between demo w 1 t → w = ⟨0, 0⟩ := by
  obtain ⟨t, s, run, after⟩ := demo_run
    ([.createJob demoJob, .start 0, .worker ⟨0, 0⟩ (.connect true),
      .worker ⟨0, 1⟩ (.connect true)] ++ demoClaim ⟨0, 0⟩ [1] (some 1) ++
      [.worker ⟨0, 0⟩ (.markRunning false), .tick 31] ++ demoSweep 0 ++ demoClaim ⟨0, 1⟩ [1] none)
    (fun out => (out.2.pc ⟨0, 0⟩).held? = some 1 ∧
      (out.2.db.jobs.row 1).any fun r => r.status = .pending)
    (by decide +kernel)
  simp only [decide_eq_true_eq, Option.any_eq_true] at after
  have inside := (execution_exclusive demo 0 .empty run 1).2 ⟨0, 0⟩ after.1
  refine ⟨t, s, run, after.2, inside, fun w other => ?_⟩
  exact (execution_exclusive demo 0 .empty run 1).1 w ⟨0, 0⟩ other inside

end TaskQueue
