/-
# TaskQueue.Advance -- what one step of a worker can do

`runWorker` has a branch for every await and every way it can end.  `Advance` sorts
them by what they do to a job: nothing, scan, claim, mark it running, carry it to the
next await, write its outcome, abandon it, unlock it, or close the sessions.  Every
later argument about workers is a case analysis of `Advance`, never of `runWorker`.

* `Looks` lists the steps of a worker without a job, between program points.
* `Pc.stage` is what a worker does with a job: claimed, running, or neither.
* `Pc.held?` is the job whose advisory lock the worker has still to give back.
-/
import TaskQueue.Worker

namespace TaskQueue

set_option autoImplicit false

/-- Where a worker stands with its job; `running` ends with the outcome write. -/
inductive Stage where
  | idle
  | claimed (job : Record)
  | running (job : Record)

def Pc.stage : Pc → Stage
  | .marking job => .claimed job
  | .starting job | .handling job | .storing job _ | .failing job _ => .running job
  | _ => .idle

/-- The job that a worker has claimed and not yet unlocked. -/
def Pc.held? : Pc → Option JobId
  | .marking job | .starting job | .handling job | .storing job _ | .failing job _ => some job.id
  | .unlocking id _ => some id
  | .closing _ left => left
  | _ => none

/-- A worker that has not claimed a job since it was last at the head of its loop. -/
def Pc.looking : Pc → Bool
  | .connecting | .loopHead | .begun _ | .claiming _ _ | .waiting => true
  | _ => false

/-- The job of a stage. -/
def Stage.job? : Stage → Option Record
  | .idle => none
  | .claimed job | .running job => some job

/-- Between the claim of a job and its outcome write, a worker still has to unlock it. -/
theorem Pc.held_of_job {pc : Pc} {job : Record} (at_ : pc.stage.job? = some job) :
    pc.held? = some job.id := by
  cases pc <;> simp_all [Pc.stage, Pc.held?, Stage.job?]

theorem Pc.marking_of_claimed {pc : Pc} {job : Record} (at_ : pc.stage = .claimed job) :
    pc = .marking job := by
  cases pc <;> simp_all [Pc.stage]

/-- A step that leaves a job without an outcome: the `'running'` UPDATE raises, the
handler ends in an exception that `except Exception` lets pass, or `_handle_failure`
raises. -/
inductive Abandons : Pc → WorkerAct → Pc → Prop
  | markRunning (job : Record) :
      Abandons (.marking job) (.markRunning true) (.closing true (some job.id))
  | handler (job : Record) (payload : Json) :
      Abandons (.handling job) (.handlerEnds payload .raisesBase) (.unlocking job.id true)
  | handleFailure (job : Record) (error : PyError) :
      Abandons (.failing job error) (.handleFailure true) (.unlocking job.id true)

/-- One step of a worker, by what it does to a job. -/
inductive Advance (cfg : Config) (jobs : SerialTable Job) (locks : LockTable) (w : WorkerId) :
    Pc → WorkerAct → Move → Prop
  | rests {pc pc' : Pc} {act : WorkerAct} (looks : pc.looking = true)
      (noClaim : ∀ plan, act ≠ .claim plan) (free' : pc'.held? = none)
      (idle : pc.stage = .idle) (idle' : pc'.stage = .idle) :
      Advance cfg jobs locks w pc act { pc := pc', locks }
  | findsNone {snapshot : SerialTable Job} {startedAt : Time} {plan : ClaimPlan}
      (admissible : plan.Admissible locks w startedAt snapshot jobs)
      (nothing : plan.returned = none) :
      Advance cfg jobs locks w (.claiming snapshot startedAt) (.claim plan)
        { pc := .waiting, locks := locks.lockAll w plan.lockCalls }
  | claimRaises {snapshot : SerialTable Job} {startedAt : Time} (scanned : List JobId) :
      Advance cfg jobs locks w (.claiming snapshot startedAt) (.claimRaises scanned)
        { pc := .closing true none, locks := locks.lockAll w scanned }
  | claims {snapshot : SerialTable Job} {startedAt : Time} {plan : ClaimPlan} {id : JobId} {r : Job}
      (admissible : plan.Admissible locks w startedAt snapshot jobs)
      (returned : plan.returned = some id) (at_ : jobs.row id = some r) :
      Advance cfg jobs locks w (.claiming snapshot startedAt) (.claim plan)
        { pc := .marking (.ofRow id r)
          statement := some (.claim w id startedAt)
          locks := locks.lockAll w plan.lockCalls }
  | marks (job : Record) :
      Advance cfg jobs locks w (.marking job) (.markRunning false)
        { pc := .starting job, statement := some (.markRunning job.id), locks }
  | carries {pc pc' : Pc} {act : WorkerAct} {job : Record} (payload : Json)
      (running : pc.stage = .running job) (running' : pc'.stage = .running { job with payload }) :
      Advance cfg jobs locks w pc act { pc := pc', locks }
  | succeeds (job : Record) (value : Option Json) :
      Advance cfg jobs locks w (.storing job (.storable value)) (.storeDone none)
        { pc := .unlocking job.id false, statement := some (.storeDone value w job.id), locks }
  | fails (job : Record) (error : PyError) :
      Advance cfg jobs locks w (.failing job error) (.handleFailure false)
        { pc := .unlocking job.id false, statement := some (handleFailure cfg job error w), locks }
  | abandons {pc pc' : Pc} {act : WorkerAct} (leaves : Abandons pc act pc') :
      Advance cfg jobs locks w pc act { pc := pc', locks }
  | unlocks (id : JobId) (raised raises : Bool) :
      Advance cfg jobs locks w (.unlocking id raised) (.unlock raises)
        { pc := if raised then .closing true none else .loopHead
          locks := if raises then locks else locks.unlock w id }
  | closes (raised : Bool) (left : Option JobId) (raises : Bool) :
      Advance cfg jobs locks w (.closing raised left) (.close raises)
        { pc := .exited (raised || raises)
          locks := if raises then locks else locks.closeWhere (· == w) }

theorem tryClaim_advance {cfg : Config} {locks : LockTable} {jobs snapshot : SerialTable Job}
    {w : WorkerId} {startedAt : Time} {plan : ClaimPlan} {m : Move}
    (moved : tryClaim locks jobs w snapshot startedAt plan = some m) :
    Advance cfg jobs locks w (.claiming snapshot startedAt) (.claim plan) m := by
  unfold tryClaim at moved
  split at moved
  · rename_i admissible
    cases answer : plan.returned with
    | none =>
        simp only [answer, Option.some.injEq] at moved
        subst moved
        exact .findsNone admissible answer
    | some id =>
        simp only [answer, Option.map_eq_some_iff] at moved
        obtain ⟨r, at_, rfl⟩ := moved
        exact .claims admissible answer at_
  · cases moved

theorem executeJob_advance {cfg : Config} {locks : LockTable} {jobs : SerialTable Job}
    {w : WorkerId} {pc : Pc} {act : WorkerAct} {m : Move}
    (moved : executeJob cfg locks w pc act = some m) : Advance cfg jobs locks w pc act m := by
  unfold executeJob at moved
  split at moved
  · cases moved
    exact .marks _
  · cases moved
    exact .abandons (.markRunning _)
  · split at moved <;> cases moved <;> exact .carries _ rfl rfl
  · cases moved
    exact .carries _ rfl rfl
  · cases moved
    exact .carries _ rfl rfl
  · cases moved
    exact .abandons (.handler _ _)
  · cases moved
    exact .succeeds _ _
  · cases moved
    exact .carries _ rfl rfl
  · cases moved
    exact .fails _ _
  · cases moved
    exact .abandons (.handleFailure _ _)
  · cases moved
    exact .unlocks _ _ _
  · cases moved

/-- **The inversion of a worker's step.** -/
theorem runWorker_advance {cfg : Config} {shutdown : Bool} {now : Time} {jobs : SerialTable Job}
    {locks : LockTable} {w : WorkerId} {pc : Pc} {act : WorkerAct} {m : Move}
    (moved : runWorker cfg shutdown now jobs locks w pc act = some m) :
    Advance cfg jobs locks w pc act m := by
  unfold runWorker at moved
  split at moved
  · rename_i ok
    cases moved
    cases ok <;> exact .rests rfl (by simp) rfl rfl rfl
  · cases moved
    cases shutdown <;> exact .rests rfl (by simp) rfl rfl rfl
  · cases moved
    exact .rests rfl (by simp) rfl rfl rfl
  · exact tryClaim_advance moved
  · split at moved
    · cases moved
      exact .claimRaises _
    · cases moved
  · cases moved
    exact .rests rfl (by simp) rfl rfl rfl
  · cases moved
    exact .closes _ _ _
  · exact executeJob_advance moved

/-- One step of a worker without a job, by the program points it joins. -/
inductive Looks (shutdown : Bool) (now : Time) (jobs : SerialTable Job) :
    Pc → WorkerAct → Pc → Prop
  | connects : Looks shutdown now jobs .connecting (.connect true) .loopHead
  | unconnected : Looks shutdown now jobs .connecting (.connect false) (.exited true)
  | enters (going : shutdown = false) :
      Looks shutdown now jobs .loopHead .enterLoop (.begun now)
  | stops (set : shutdown = true) :
      Looks shutdown now jobs .loopHead .enterLoop (.closing false none)
  | selects (startedAt : Time) :
      Looks shutdown now jobs (.begun startedAt) .select (.claiming jobs startedAt)
  | findsNone (snapshot : SerialTable Job) (startedAt : Time) (plan : ClaimPlan) :
      Looks shutdown now jobs (.claiming snapshot startedAt) (.claim plan) .waiting
  | claims (snapshot : SerialTable Job) (startedAt : Time) (plan : ClaimPlan) (job : Record) :
      Looks shutdown now jobs (.claiming snapshot startedAt) (.claim plan) (.marking job)
  | raises (snapshot : SerialTable Job) (startedAt : Time) (scanned : List JobId) :
      Looks shutdown now jobs (.claiming snapshot startedAt) (.claimRaises scanned)
        (.closing true none)
  | wakes : Looks shutdown now jobs .waiting .wake .loopHead

theorem runWorker_looks {cfg : Config} {shutdown : Bool} {now : Time} {jobs : SerialTable Job}
    {locks : LockTable} {w : WorkerId} {pc : Pc} {act : WorkerAct} {m : Move}
    (moved : runWorker cfg shutdown now jobs locks w pc act = some m)
    (looks : pc.looking = true) : Looks shutdown now jobs pc act m.pc := by
  unfold runWorker at moved
  split at moved
  · rename_i ok
    cases moved
    cases ok
    · exact .unconnected
    · exact .connects
  · cases moved
    cases shutdown
    · exact .enters rfl
    · exact .stops rfl
  · cases moved
    exact .selects _
  · have claim : Advance cfg jobs locks w (.claiming _ _) _ m := tryClaim_advance moved
    cases claim with
    | findsNone _ _ => exact .findsNone _ _ _
    | claims _ _ _ => exact .claims _ _ _ _
    | rests _ noClaim _ _ _ => exact absurd rfl (noClaim _)
    | carries _ running _ => cases running
    | abandons leaves => cases leaves
  · split at moved
    · cases moved
      exact .raises _ _ _
    · cases moved
  · cases moved
    exact .wakes
  · cases looks
  · -- no await of `_execute_job` is reached without a job
    have nothing : executeJob cfg locks w pc act = none := by
      cases pc <;> first | rfl | cases looks
    cases nothing.symm.trans moved

/-! ## Along a step -/

section

variable {cfg : Config} {jobs : SerialTable Job} {locks : LockTable} {w : WorkerId} {pc : Pc}
  {act : WorkerAct} {m : Move}

theorem byWorker_handleFailure (cfg : Config) (job : Record) (error : PyError) (w : WorkerId) :
    (handleFailure cfg job error w).byWorker = true := by
  unfold handleFailure
  split <;> rfl

/-- A worker sends no heartbeat, no sweep and no request. -/
theorem Advance.byWorker (advance : Advance cfg jobs locks w pc act m) {st : Statement}
    (sends : m.statement = some st) : st.byWorker = true := by
  cases advance with
  | fails job error =>
      cases sends
      exact byWorker_handleFailure cfg job error w
  | _ => cases sends <;> rfl

/-- A worker's step leaves the locks of every other session where they are. -/
theorem Advance.count_of_ne (advance : Advance cfg jobs locks w pc act m) {w' : WorkerId}
    (ne : w' ≠ w) (i : JobId) : m.locks.count w' i = locks.count w' i := by
  cases advance with
  | findsNone _ _ => simp [SessionLock.Locks.count_lockAll, ne]
  | claimRaises _ => simp [SessionLock.Locks.count_lockAll, ne]
  | claims _ _ _ => simp [SessionLock.Locks.count_lockAll, ne]
  | unlocks id raised raises => cases raises <;> simp [SessionLock.Locks.count_unlock, ne]
  | closes raised left raises => cases raises <;> simp [SessionLock.Locks.count_closeWhere, ne]
  | _ => rfl

/-- The claimed row is pending and due in the latest version, and its lock was to be had. -/
theorem claim_facts {plan : ClaimPlan} {snapshot : SerialTable Job} {startedAt : Time} {id : JobId}
    (admissible : plan.Admissible locks w startedAt snapshot jobs)
    (returned : plan.returned = some id) :
    id ∈ plan.lockCalls ∧ locks.Obtainable w id ∧ eligible startedAt jobs id = true := by
  obtain ⟨scanned, obtainable, -, stillEligible⟩ := admissible.2.2.1 id (by simp [returned])
  exact ⟨List.mem_append_left _ scanned, obtainable, stillEligible⟩

end

end TaskQueue
