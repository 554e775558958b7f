/-
# TaskQueue.Faults -- statements that take effect and raise

A statement on a pool connection may be applied by the database although the awaited call
raises in the worker: the command timeout, or a connection lost after the commit.  The
faulty system has the events of `step` and one more, an act of a worker that raises after
its statement took effect; control goes where the raising act goes.

* `plain_of_faulty` maps every faulty step to a step of the faultless system that leaves
  everything but the tables the same.
* `coherent_of_run`: the advisory lock still follows the program points, so executions
  exclude each other in the faulty system as well.
-/
import TaskQueue.Change

namespace TaskQueue

set_option autoImplicit false

open Transition

inductive FaultyEvent where
  | event (e : Event)
  /-- `act` raises, and its statement took effect -/
  | lost (w : WorkerId) (act : WorkerAct)

/-- The event of the faultless system with the same control. -/
def FaultyEvent.plain : FaultyEvent → Event
  | .event e => e
  | .lost w act => .worker w act

/-- The statement of `_execute_job` whose call raises in `act`, if the database can apply it. -/
def raisingStatement (cfg : Config) (worker : WorkerId) : Pc → WorkerAct → Option Statement
  | .marking job, .markRunning true => some (.markRunning job.id)
  | .storing job (.storable value), .storeDone (some _) => some (.storeDone value worker job.id)
  | .failing job e, .handleFailure true => some (handleFailure cfg job e worker)
  | _, _ => none

/-- The transaction that a faulty event commits. -/
def faultyCommitted (cfg : Config) (s : Sys) : FaultyEvent → Option Statement
  | .event e => committed cfg s e
  | .lost w act => raisingStatement cfg w (s.pc w) act

def faultyStep (cfg : Config) (s : Sys) : FaultyEvent → Option Sys
  | .event e => step cfg s e
  | .lost w act =>
      (raisingStatement cfg w (s.pc w) act).bind fun statement =>
        (control cfg s (.worker w act)).map fun c => { c with db := s.db.exec s.now statement }

/-- A run of the system whose statements may take effect and raise. -/
abbrev FaultyRuns (cfg : Config) (t₀ : Time) (db : Db) : History Sys FaultyEvent → Sys → Prop :=
  Run (faultyStep cfg) (Sys.boot t₀ db)

/-- What ties the program points to the locks and the processes, whatever the tables. -/
structure Coherent (s : Sys) : Prop where
  locked : ∀ w j, (s.pc w).held? = some j → s.locks.owner j = some w
  unborn : ∀ w, s.phase w.proc = .absent → s.pc w = .absent

section

variable {cfg : Config} {t₀ : Time} {db : Db} {t : History Sys FaultyEvent} {s s' : Sys}
  {x : FaultyEvent} {e : Event} {w w' : WorkerId} {j : JobId}

/-- What an act does whose statement took effect and raised. -/
theorem lost_step {act : WorkerAct} (taken : faultyStep cfg s (.lost w act) = some s') :
    ∃ st c, raisingStatement cfg w (s.pc w) act = some st ∧
      control cfg s (.worker w act) = some c ∧ s' = { c with db := s.db.exec s.now st } := by
  simp only [faultyStep, Option.bind_eq_some_iff, Option.map_eq_some_iff] at taken
  obtain ⟨st, sent, c, enabled, rfl⟩ := taken
  exact ⟨st, c, sent, enabled, rfl⟩

/-- **A faulty step is a faultless one, but for the tables.** -/
theorem plain_of_faulty (taken : faultyStep cfg s x = some s') :
    ∃ s₀, step cfg s x.plain = some s₀ ∧ s' = { s₀ with db := s'.db } := by
  cases x with
  | event e => exact ⟨s', taken, rfl⟩
  | lost w act =>
      obtain ⟨st, c, -, enabled, rfl⟩ := lost_step taken
      refine ⟨{ c with db := s.db.commit s.now (committed cfg s (.worker w act)) }, ?_, rfl⟩
      simp [FaultyEvent.plain, step, enabled]

theorem faulty_db (taken : faultyStep cfg s x = some s') :
    s'.db = s.db.commit s.now (faultyCommitted cfg s x) := by
  cases x with
  | event e => exact step_db taken
  | lost w act =>
      obtain ⟨st, c, sent, -, rfl⟩ := lost_step taken
      simp [faultyCommitted, sent, Db.commit]

/-! ## Exclusion -/

theorem locked_step (locked : ∀ w j, (s.pc w).held? = some j → s.locks.owner j = some w)
    (taken : step cfg s e = some s') :
    ∀ w j, (s'.pc w).held? = some j → s'.locks.owner j = some w := by
  intro w j held
  cases worker_step taken w with
  | moves now moved pc locks =>
      subst now
      rw [pc] at held
      have advance := Sys.advance moved
      rcases advance.held held with ⟨startedAt, claims⟩ | ⟨job, at_, rfl⟩
      · have commits := (committed_of_moved moved).trans claims
        exact owner_of_claims taken ⟨startedAt, commits⟩
      · -- a worker at a job neither unlocks nor closes
        rw [locks]
        refine advance.owner_self (locked w _ (Pc.held_of_job at_)) ?_ ?_
        · rintro raised here rfl
          rw [here] at at_
          cases at_
        · rintro raised left raises here rfl
          rw [here] at at_
          cases at_
  | stays _ _ pc locks =>
      rw [pc] at held
      exact (SessionLock.Locks.owner_congr locks).2 (locked w j held)
  | spawns _ pc _ =>
      rw [pc] at held
      cases held
  | dies _ pc _ =>
      rw [pc] at held
      cases held

theorem coherent_step (coherent : Coherent s) (taken : faultyStep cfg s x = some s') :
    Coherent s' := by
  obtain ⟨s₀, plain, same⟩ := plain_of_faulty taken
  have locked := locked_step coherent.locked plain
  have unborn := absent_step coherent.unborn plain
  rw [same]
  exact ⟨locked, unborn⟩

theorem coherent_boot (t₀ : Time) (db : Db) : Coherent (Sys.boot t₀ db) :=
  ⟨fun _ _ held => (by cases held), fun _ _ => rfl⟩

/-- **In the faulty system every worker owns the lock of the job it holds.** -/
theorem coherent_of_run (run : FaultyRuns cfg t₀ db t s) : Coherent s :=
  run.invariant (P := fun _ s => Coherent s) (coherent_boot t₀ db)
    fun _ _ _ _ _ ih taken => coherent_step ih taken

theorem Coherent.unique (coherent : Coherent s) (held : (s.pc w).held? = some j)
    (held' : (s.pc w').held? = some j) : w = w' :=
  Option.some.inj ((coherent.locked w j held).symm.trans (coherent.locked w' j held'))

/-! ## One row along a faulty step -/

/-- The job of a statement of `_execute_job`. -/
def Statement.target : Statement → Option JobId
  | .markRunning id | .storeDone _ _ id | .bury id _ _ _ _ _ | .retry _ _ id => some id
  | _ => none

theorem target_handleFailure (job : Record) (error : PyError) :
    (handleFailure cfg job error w).target = some job.id := by
  unfold handleFailure
  split <;> rfl

theorem target_raisingStatement {pc : Pc} {act : WorkerAct} {st : Statement}
    (sent : raisingStatement cfg w pc act = some st) :
    ∃ job, pc.stage.job? = some job ∧ st.target = some job.id := by
  unfold raisingStatement at sent
  split at sent
  · cases sent
    exact ⟨_, rfl, rfl⟩
  · cases sent
    exact ⟨_, rfl, rfl⟩
  · cases sent
    exact ⟨_, rfl, target_handleFailure _ _⟩
  · cases sent

/-- A statement of `_execute_job` comes from a worker at the job. -/
theorem executes_of_target (taken : faultyStep cfg s x = some s') {st : Statement}
    (commits : faultyCommitted cfg s x = some st) (target : st.target = some j) :
    ∃ w act, x.plain = .worker w act ∧ Executes s w j := by
  cases x with
  | event e =>
      have byWorker : st.byWorker = true := by
        cases st <;> first | rfl | cases target
      cases sends_of_committed taken commits byWorker with
      | running at_ =>
          exact ⟨_, _, rfl, _, (StatusWrite.running at_).job, Option.some.inj target⟩
      | done at_ =>
          exact ⟨_, _, rfl, _, (StatusWrite.done at_).job, Option.some.inj target⟩
      | failed at_ =>
          rw [target_handleFailure] at target
          exact ⟨_, _, rfl, _, (StatusWrite.failed at_).job, Option.some.inj target⟩
      | claim _ _ _ _ => cases target
  | lost w act =>
      obtain ⟨job, at_, same⟩ := target_raisingStatement commits
      exact ⟨w, act, rfl, job, at_, Option.some.inj (same.symm.trans target)⟩

/-- While `w` holds `j`, nobody else's step is a statement of `_execute_job` for `j`. -/
theorem untargeted_of_other (coherent : Coherent s) (held : (s.pc w).held? = some j)
    (taken : faultyStep cfg s x = some s') (other : ∀ act, x.plain ≠ .worker w act) :
    ∀ st, faultyCommitted cfg s x = some st → st.target ≠ some j := by
  intro st commits target
  obtain ⟨w', act, author, job, at_, rfl⟩ := executes_of_target taken commits target
  cases coherent.unique held (Pc.held_of_job at_)
  exact other act author

/-- A claim and a DELETE find a pending row. -/
theorem pending_of_faulty (taken : faultyStep cfg s x = some s') {r : Job}
    (row : s.db.jobs.row j = some r) {st : Statement} (commits : faultyCommitted cfg s x = some st)
    (takes : (∃ w startedAt, st = .claim w j startedAt) ∨ st = .deleteJob j) :
    r.status = .pending := by
  cases x with
  | event e =>
      rcases takes with ⟨w, startedAt, rfl⟩ | rfl
      · exact (claims_pending taken ⟨startedAt, commits⟩ row).1
      · obtain ⟨r', row', pending⟩ := delete_pending taken commits
        cases row.symm.trans row'
        exact pending
  | lost w act =>
      obtain ⟨job, -, target⟩ := target_raisingStatement commits
      rcases takes with ⟨w, startedAt, rfl⟩ | rfl <;> cases target

theorem onRow_of_target {now : Time} {st : Statement} {id : JobId} {r : Job}
    (target : st.target = some id) (ne : j ≠ id) : st.onRow now j r = some r := by
  cases st <;> cases target <;> simp [Statement.onRow, ne]

/-- What leaves a done row as it is. -/
theorem onRow_of_done {now : Time} {st : Statement} {r : Job} (done : r.status = .done)
    (untargeted : st.target ≠ some j) (unclaimed : ∀ w startedAt, st ≠ .claim w j startedAt)
    (kept : st ≠ .deleteJob j) : st.onRow now j r = some r := by
  cases target : st.target with
  | some id => exact onRow_of_target target fun same => untargeted (by rw [target, same])
  | none =>
      cases st with
      | insertJob body => rfl
      | claim w id startedAt =>
          have other : j ≠ id := by
            rintro rfl
            exact unclaimed w startedAt rfl
          simp [Statement.onRow, other]
      | deleteJob id =>
          have other : j ≠ id := by
            rintro rfl
            exact kept rfl
          simp [Statement.onRow, other]
      | heartbeat w =>
          have still : ¬ r.beatsFor w = true := fun beats => by
            cases done.symm.trans (Job.beatsFor_iff.1 beats).2
          simp [Statement.onRow, still]
      | reap =>
          have still : ¬ r.isStale now = true := fun stale => by
            rcases (Job.isStale_iff.1 stale).1 with status | status <;>
              cases done.symm.trans status
          simp [Statement.onRow, still]
      | _ => cases target

/-- Only a statement of `_execute_job` makes a row done. -/
theorem done_of_onRow {now : Time} {st : Statement} {r r' : Job}
    (untargeted : st.target ≠ some j) (row' : st.onRow now j r = some r')
    (done : r'.status = .done) : r.status = .done := by
  cases target : st.target with
  | some id =>
      rw [onRow_of_target target fun same => untargeted (by rw [target, same])] at row'
      cases row'
      exact done
  | none =>
      cases st with
      | insertJob body =>
          cases row'
          exact done
      | claim w id startedAt =>
          simp only [Statement.onRow, Option.some.injEq] at row'
          subst row'
          split at done
          · cases done
          · exact done
      | deleteJob id =>
          simp only [Statement.onRow, Option.ite_none_left_eq_some] at row'
          cases row'.2
          exact done
      | heartbeat w =>
          simp only [Statement.onRow, Option.some.injEq] at row'
          subst row'
          split at done
          · exact done
          · exact done
      | reap =>
          simp only [Statement.onRow, Option.some.injEq] at row'
          subst row'
          split at done
          · cases done
          · exact done
      | _ => cases target

/-- A done row changes only by a statement of `_execute_job`. -/
theorem done_frame (taken : faultyStep cfg s x = some s') {r : Job}
    (row : s.db.jobs.row j = some r) (done : r.status = .done)
    (untargeted : ∀ st, faultyCommitted cfg s x = some st → st.target ≠ some j) :
    s'.db.jobs.row j = some r := by
  rw [faulty_db taken, row_commit _ row]
  cases commits : faultyCommitted cfg s x with
  | none => rfl
  | some st =>
      have takes := pending_of_faulty taken row commits
      rw [done] at takes
      refine onRow_of_done done (untargeted st commits) ?_ ?_
      · rintro w startedAt rfl
        cases takes (.inl ⟨w, startedAt, rfl⟩)
      · rintro rfl
        cases takes (.inr rfl)

/-- A row becomes done only by a statement of `_execute_job`. -/
theorem undone_frame (taken : faultyStep cfg s x = some s')
    (undone : ∀ r, s.db.jobs.row j = some r → r.status ≠ .done)
    (untargeted : ∀ st, faultyCommitted cfg s x = some st → st.target ≠ some j) :
    ∀ r', s'.db.jobs.row j = some r' → r'.status ≠ .done := by
  intro r' row' done
  rw [faulty_db taken] at row'
  cases row : s.db.jobs.row j with
  | none =>
      obtain ⟨body, -, -, rfl⟩ := row_new row row'
      cases done
  | some r =>
      rw [row_commit _ row] at row'
      cases commits : faultyCommitted cfg s x with
      | none =>
          rw [commits] at row'
          cases row'
          exact undone _ row done
      | some st =>
          rw [commits] at row'
          exact undone r row (done_of_onRow (untargeted st commits) row' done)

end

end TaskQueue
