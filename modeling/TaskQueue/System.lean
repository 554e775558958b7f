/-
# TaskQueue.System -- processes, workers, loops and requests over one database

The state of everything and one event for each atomic step: a step of a worker's
coroutine, of its heartbeat loop or of a process's reaper, an API request, the
delivery of a notification, the start, shutdown or crash of a process, and the
passing of time.  Nothing orders the events: a run is any interleaving.

`committed` is the transaction that a step commits and `control` its effect on
everything but the tables; `step` puts the two together.

* `Taken` is the inversion of `step`, one case for each event, and `WorkerStep` what is left of
  it for one worker and its session.
* `Author` is the inversion of `committed`: which event commits a given statement, and `Sends`
  from where, if a worker does.
-/
import TaskQueue.Advance
import TaskQueue.Api
import TaskQueue.Lib.Run

namespace TaskQueue

set_option autoImplicit false

open Transition

inductive ProcPhase where
  | absent
  | up
  | crashed
  deriving DecidableEq, Repr

/-- A worker's notifications: those on the way to its listening session, the calls of
`notify_event.set` that are scheduled, and the event. -/
structure Notify where
  inbox : List JobId
  scheduled : ℕ
  isSet : Bool

structure Sys where
  now : Time
  db : Db
  locks : LockTable
  phase : ProcId → ProcPhase
  shutdown : ProcId → Bool
  pc : WorkerId → Pc
  heartbeat : WorkerId → LoopPc
  reaper : ProcId → LoopPc
  notify : WorkerId → Notify

/-- Nothing has started yet; the tables may hold anything. -/
def Sys.boot (now : Time) (db : Db) : Sys where
  now := now
  db := db
  locks := .empty
  phase _ := .absent
  shutdown _ := false
  pc _ := .absent
  heartbeat _ := .absent
  reaper _ := .absent
  notify _ := ⟨[], 0, false⟩

inductive Event where
  | worker (w : WorkerId) (act : WorkerAct)
  | heartbeat (w : WorkerId) (act : LoopAct)
  | reaper (p : ProcId) (act : LoopAct)
  | createJob (body : JobCreate)
  | cancelJob (id : JobId)
  /-- the listener's callback runs and schedules `notify_event.set` -/
  | deliver (w : WorkerId)
  | runScheduled (w : WorkerId)
  | start (p : ProcId)
  /-- SIGTERM or SIGINT sets `shutdown_event` -/
  | shutdown (p : ProcId)
  | crash (p : ProcId)
  | tick (d : Time)

/-- The listening session is open. -/
def Pc.listening : Pc → Bool
  | .absent | .connecting | .exited _ | .dead => false
  | _ => true

/-! ## Steps -/

/-- One step of a worker's coroutine, but for the tables. -/
def Sys.moveWorker (s : Sys) (w : WorkerId) (act : WorkerAct) (m : Move) : Sys :=
  { s with
    pc := Function.update s.pc w m.pc
    locks := m.locks
    notify :=
      match act with
      -- `notify_event.clear()`, on wake-up and on timeout alike
      | .wake => Function.update s.notify w { s.notify w with isSet := false }
      | _ => s.notify }

/-- `_main` spawns the workers, their heartbeat loops and one reaper. -/
def Sys.startProc (cfg : Config) (s : Sys) (p : ProcId) : Sys :=
  { s with
    phase := Function.update s.phase p .up
    pc := fun w => if w.proc = p ∧ w.slot < cfg.workerCount then .connecting else s.pc w
    heartbeat := fun w =>
      if w.proc = p ∧ w.slot < cfg.workerCount then .checking else s.heartbeat w
    reaper := Function.update s.reaper p .checking }

/-- The process dies: its coroutines stop and all its sessions close. -/
def Sys.crashProc (s : Sys) (p : ProcId) : Sys :=
  { s with
    phase := Function.update s.phase p .crashed
    locks := s.locks.closeWhere fun w => w.proc == p
    pc := fun w => if w.proc = p then .dead else s.pc w
    heartbeat := fun w => if w.proc = p then .exited else s.heartbeat w
    reaper := Function.update s.reaper p .exited }

/-- `trg_notify_new_job`: the commit of an INSERT notifies every listening session. -/
def Sys.notifyAll (s : Sys) (id : JobId) : Sys :=
  { s with
    notify := fun w =>
      if (s.pc w).listening then { s.notify w with inbox := (s.notify w).inbox ++ [id] }
      else s.notify w }

def Sys.runWorker (cfg : Config) (s : Sys) (w : WorkerId) (act : WorkerAct) : Option Move :=
  TaskQueue.runWorker cfg (s.shutdown w.proc) s.now s.db.jobs s.locks w (s.pc w) act

theorem Sys.advance {cfg : Config} {s : Sys} {w : WorkerId} {act : WorkerAct} {m : Move}
    (moved : s.runWorker cfg w act = some m) :
    Advance cfg s.db.jobs s.locks w (s.pc w) act m :=
  runWorker_advance moved

/-- The transaction that an event commits. -/
def committed (cfg : Config) (s : Sys) : Event → Option Statement
  | .worker w act => (s.runWorker cfg w act).bind Move.statement
  | .heartbeat w .update => some (.heartbeat w)
  | .reaper _ .update => some .reap
  | .createJob body => some (createJob body)
  | .cancelJob id => (cancelJob s.db id).2
  | _ => none

/-- The effect of an event on everything but the tables; `none` when it is not enabled. -/
def control (cfg : Config) (s : Sys) : Event → Option Sys
  | .worker w act => (s.runWorker cfg w act).map (s.moveWorker w act)
  | .heartbeat w act =>
      (loopNext (s.shutdown w.proc) (s.heartbeat w) act).map fun l =>
        { s with heartbeat := Function.update s.heartbeat w l }
  | .reaper p act =>
      (loopNext (s.shutdown p) (s.reaper p) act).map fun l =>
        { s with reaper := Function.update s.reaper p l }
  | .createJob _ => some (s.notifyAll s.db.jobs.next)
  | .cancelJob _ => some s
  | .deliver w =>
      match (s.notify w).inbox with
      | [] => none
      | _ :: rest =>
          some
            { s with
              notify := Function.update s.notify w
                { s.notify w with inbox := rest, scheduled := (s.notify w).scheduled + 1 } }
  | .runScheduled w =>
      match (s.notify w).scheduled with
      | 0 => none
      | n + 1 =>
          some
            { s with
              notify := Function.update s.notify w
                { s.notify w with scheduled := n, isSet := true } }
  | .start p => if s.phase p = .absent then some (s.startProc cfg p) else none
  | .shutdown p =>
      if s.phase p = .up then some { s with shutdown := Function.update s.shutdown p true }
      else none
  | .crash p => if s.phase p = .up then some (s.crashProc p) else none
  | .tick d => if 0 ≤ d then some { s with now := s.now + d } else none

def step (cfg : Config) (s : Sys) (e : Event) : Option Sys :=
  (control cfg s e).map fun c => { c with db := s.db.commit s.now (committed cfg s e) }

/-- One step of the system, one case for each event: what enables it and what it leaves. -/
inductive Taken (cfg : Config) (s : Sys) : Event → Sys → Prop
  | worker {w : WorkerId} {act : WorkerAct} {m : Move} (moved : s.runWorker cfg w act = some m) :
      Taken cfg s (.worker w act) { s.moveWorker w act m with db := s.db.commit s.now m.statement }
  | heartbeat {w : WorkerId} {act : LoopAct} {l : LoopPc}
      (next : loopNext (s.shutdown w.proc) (s.heartbeat w) act = some l) :
      Taken cfg s (.heartbeat w act)
        { s with
          heartbeat := Function.update s.heartbeat w l
          db := if act = .update then s.db.exec s.now (.heartbeat w) else s.db }
  | reaper {p : ProcId} {act : LoopAct} {l : LoopPc}
      (next : loopNext (s.shutdown p) (s.reaper p) act = some l) :
      Taken cfg s (.reaper p act)
        { s with
          reaper := Function.update s.reaper p l
          db := if act = .update then s.db.exec s.now .reap else s.db }
  | createJob (body : JobCreate) :
      Taken cfg s (.createJob body)
        { s.notifyAll s.db.jobs.next with db := s.db.exec s.now (.insertJob body) }
  | cancelJob (id : JobId) :
      Taken cfg s (.cancelJob id) { s with db := s.db.commit s.now (cancelJob s.db id).2 }
  | deliver (w : WorkerId) (n : Notify) :
      Taken cfg s (.deliver w) { s with notify := Function.update s.notify w n }
  | runScheduled (w : WorkerId) (n : Notify) :
      Taken cfg s (.runScheduled w) { s with notify := Function.update s.notify w n }
  | start {p : ProcId} (absent : s.phase p = .absent) : Taken cfg s (.start p) (s.startProc cfg p)
  | shutdown {p : ProcId} (up : s.phase p = .up) :
      Taken cfg s (.shutdown p) { s with shutdown := Function.update s.shutdown p true }
  | crash {p : ProcId} (up : s.phase p = .up) : Taken cfg s (.crash p) (s.crashProc p)
  | tick {d : Time} (forward : 0 ≤ d) : Taken cfg s (.tick d) { s with now := s.now + d }

theorem step_taken {cfg : Config} {s s' : Sys} {e : Event} (taken : step cfg s e = some s') :
    Taken cfg s e s' := by
  simp only [step, Option.map_eq_some_iff] at taken
  obtain ⟨c, enabled, rfl⟩ := taken
  cases e with
  | worker w act =>
      simp only [control, Option.map_eq_some_iff] at enabled
      obtain ⟨m, moved, rfl⟩ := enabled
      simp only [committed, moved]
      exact .worker moved
  | heartbeat w act =>
      simp only [control, Option.map_eq_some_iff] at enabled
      obtain ⟨l, next, rfl⟩ := enabled
      cases act <;> exact .heartbeat next
  | reaper p act =>
      simp only [control, Option.map_eq_some_iff] at enabled
      obtain ⟨l, next, rfl⟩ := enabled
      cases act <;> exact .reaper next
  | createJob body =>
      cases enabled
      exact .createJob body
  | cancelJob id =>
      cases enabled
      exact .cancelJob id
  | deliver w =>
      simp only [control] at enabled
      split at enabled
      · cases enabled
      · cases enabled
        exact .deliver w _
  | runScheduled w =>
      simp only [control] at enabled
      split at enabled
      · cases enabled
      · cases enabled
        exact .runScheduled w _
  | start p =>
      simp only [control, Option.ite_none_right_eq_some] at enabled
      obtain ⟨absent, same⟩ := enabled
      cases same
      exact .start absent
  | shutdown p =>
      simp only [control, Option.ite_none_right_eq_some] at enabled
      obtain ⟨up, same⟩ := enabled
      cases same
      exact .shutdown up
  | crash p =>
      simp only [control, Option.ite_none_right_eq_some] at enabled
      obtain ⟨up, same⟩ := enabled
      cases same
      exact .crash up
  | tick d =>
      simp only [control, Option.ite_none_right_eq_some] at enabled
      obtain ⟨forward, same⟩ := enabled
      cases same
      exact .tick forward

theorem step_db {cfg : Config} {s s' : Sys} {e : Event} (taken : step cfg s e = some s') :
    s'.db = s.db.commit s.now (committed cfg s e) := by
  simp only [step, Option.map_eq_some_iff] at taken
  obtain ⟨c, -, rfl⟩ := taken
  rfl

/-- Time does not run backwards. -/
theorem step_now {cfg : Config} {s s' : Sys} {e : Event} (taken : step cfg s e = some s') :
    s.now ≤ s'.now := by
  cases step_taken taken with
  | tick forward => exact le_add_of_nonneg_right forward
  | _ => exact le_refl _

theorem committed_of_moved {cfg : Config} {s : Sys} {w : WorkerId} {act : WorkerAct} {m : Move}
    (moved : s.runWorker cfg w act = some m) : committed cfg s (.worker w act) = m.statement := by
  simp [committed, moved]

theorem step_of_moved {cfg : Config} {s : Sys} {w : WorkerId} {act : WorkerAct} {m : Move}
    (moved : s.runWorker cfg w act = some m) :
    step cfg s (.worker w act) =
      some { s.moveWorker w act m with db := s.db.commit s.now m.statement } := by
  simp [step, control, committed, moved]

/-- What one step does to one worker and to the locks of its session. -/
inductive WorkerStep (cfg : Config) (w : WorkerId) (s : Sys) (e : Event) (s' : Sys) : Prop
  | moves {act : WorkerAct} {m : Move} (now : e = .worker w act)
      (moved : s.runWorker cfg w act = some m) (pc : s'.pc w = m.pc) (locks : s'.locks = m.locks)
  | stays (other : ∀ act, e ≠ .worker w act) (alive : e ≠ .crash w.proc)
      (pc : s'.pc w = s.pc w) (locks : s'.locks.count w = s.locks.count w)
  | spawns (absent : s.phase w.proc = .absent) (pc : s'.pc w = .connecting)
      (locks : s'.locks.count w = s.locks.count w)
  | dies (now : e = .crash w.proc) (pc : s'.pc w = .dead) (locks : ∀ i, s'.locks.count w i = 0)

theorem worker_step {cfg : Config} {s s' : Sys} {e : Event} (taken : step cfg s e = some s')
    (w : WorkerId) : WorkerStep cfg w s e s' := by
  cases step_taken taken with
  | @worker w' act m moved =>
      by_cases mine : w = w'
      · subst mine
        exact .moves rfl moved (by simp [Sys.moveWorker]) rfl
      · refine .stays (fun act' same => ?_) (by simp) (by simp [Sys.moveWorker, mine]) ?_
        · cases same
          exact mine rfl
        · funext i
          exact (Sys.advance moved).count_of_ne mine i
  | @start p absent =>
      by_cases spawned : w.proc = p ∧ w.slot < cfg.workerCount
      · refine .spawns (spawned.1 ▸ absent) ?_ rfl
        simp [Sys.startProc, spawned]
      · refine .stays (by simp) (by simp) ?_ rfl
        simp [Sys.startProc, spawned]
  | @crash p up =>
      by_cases dies : w.proc = p
      · subst dies
        exact .dies rfl (by simp [Sys.crashProc]) fun i => by
          simp [Sys.crashProc, SessionLock.Locks.count_closeWhere]
      · refine .stays (by simp) (fun same => ?_) (by simp [Sys.crashProc, dies]) ?_
        · cases same
          exact dies rfl
        · funext i
          simp [Sys.crashProc, SessionLock.Locks.count_closeWhere, dies]
  | _ => exact .stays (by simp) (by simp) rfl rfl

/-- Who commits a statement, and when. -/
inductive Author (s : Sys) : Event → Statement → Prop
  | worker {w : WorkerId} {act : WorkerAct} {st : Statement} (sends : st.byWorker = true) :
      Author s (.worker w act) st
  | heartbeat {w : WorkerId} (updating : s.heartbeat w = .updating) :
      Author s (.heartbeat w .update) (.heartbeat w)
  | reaper (p : ProcId) : Author s (.reaper p .update) .reap
  | createJob (body : JobCreate) : Author s (.createJob body) (.insertJob body)
  | cancelJob {id : JobId} {r : Job} (row : s.db.jobs.row id = some r)
      (pending : r.status = .pending) : Author s (.cancelJob id) (.deleteJob id)

theorem author_of_committed {cfg : Config} {s s' : Sys} {e : Event} {st : Statement}
    (taken : step cfg s e = some s') (commits : committed cfg s e = some st) : Author s e st := by
  cases step_taken taken with
  | worker moved =>
      rw [committed_of_moved moved] at commits
      exact .worker ((Sys.advance moved).byWorker commits)
  | @heartbeat w act l next =>
      cases act with
      | update =>
          cases commits
          cases at_ : s.heartbeat w with
          | updating => exact .heartbeat at_
          | _ => simp [loopNext, at_] at next
      | _ => cases commits
  | @reaper p act l _ =>
      cases act with
      | update =>
          cases commits
          exact .reaper p
      | _ => cases commits
  | createJob body =>
      cases commits
      exact .createJob body
  | cancelJob id =>
      obtain ⟨rfl, r, row, pending⟩ := cancelJob_statement commits
      exact .cancelJob row pending
  | _ => cases commits

/-- A statement of a worker, with where the worker stands when it sends it. -/
inductive Sends (cfg : Config) (s : Sys) : Event → Statement → Prop
  | claim {w : WorkerId} {snapshot : SerialTable Job} {startedAt : Time} {plan : ClaimPlan}
      {id : JobId} {r : Job} (at_ : s.pc w = .claiming snapshot startedAt)
      (admissible : plan.Admissible s.locks w startedAt snapshot s.db.jobs)
      (returned : plan.returned = some id) (row : s.db.jobs.row id = some r) :
      Sends cfg s (.worker w (.claim plan)) (.claim w id startedAt)
  | running {w : WorkerId} {job : Record} (at_ : s.pc w = .marking job) :
      Sends cfg s (.worker w (.markRunning false)) (.markRunning job.id)
  | done {w : WorkerId} {job : Record} {value : Option Json}
      (at_ : s.pc w = .storing job (.storable value)) :
      Sends cfg s (.worker w (.storeDone none)) (.storeDone value w job.id)
  | failed {w : WorkerId} {job : Record} {error : PyError} (at_ : s.pc w = .failing job error) :
      Sends cfg s (.worker w (.handleFailure false)) (handleFailure cfg job error w)

theorem sends_of_committed {cfg : Config} {s s' : Sys} {e : Event} {st : Statement}
    (taken : step cfg s e = some s') (commits : committed cfg s e = some st)
    (byWorker : st.byWorker = true) : Sends cfg s e st := by
  cases author_of_committed taken commits with
  | @worker w act _ _ =>
      cases step_taken taken with
      | worker moved =>
          rw [committed_of_moved moved] at commits
          have advance := Sys.advance moved
          generalize at_ : s.pc w = pc at advance
          cases advance with
          | claims admissible returned row =>
              cases commits
              exact .claim at_ admissible returned row
          | marks job =>
              cases commits
              exact .running at_
          | succeeds job value =>
              cases commits
              exact .done at_
          | fails job error =>
              cases commits
              exact .failed at_
          | _ => cases commits
  | _ => cases byWorker

/-- The heartbeat UPDATE of `w` is committed by its loop, from inside the loop. -/
theorem heartbeat_updating {cfg : Config} {s s' : Sys} {e : Event} {w : WorkerId}
    (taken : step cfg s e = some s') (commits : committed cfg s e = some (.heartbeat w)) :
    e = .heartbeat w .update ∧ s.heartbeat w = .updating := by
  cases author_of_committed taken commits with
  | worker sends => cases sends
  | heartbeat updating => exact ⟨rfl, updating⟩

/-- A sweep is committed by a reaper. -/
theorem reap_event {cfg : Config} {s s' : Sys} {e : Event} (taken : step cfg s e = some s')
    (commits : committed cfg s e = some .reap) : ∃ p, e = .reaper p .update := by
  cases author_of_committed taken commits with
  | worker sends => cases sends
  | reaper p => exact ⟨p, rfl⟩

/-- A DELETE is committed by a cancellation of a pending job. -/
theorem delete_pending {cfg : Config} {s s' : Sys} {e : Event} {id : JobId}
    (taken : step cfg s e = some s') (commits : committed cfg s e = some (.deleteJob id)) :
    ∃ r, s.db.jobs.row id = some r ∧ r.status = .pending := by
  cases author_of_committed taken commits with
  | worker sends => cases sends
  | cancelJob row pending => exact ⟨_, row, pending⟩

/-- A run of the system from a start with given clock and tables. -/
abbrev Runs (cfg : Config) (t₀ : Time) (db : Db) : History Sys Event → Sys → Prop :=
  Run (step cfg) (Sys.boot t₀ db)

/-! ## Processes -/

/-- The process crashed: none of its coroutines runs. -/
structure Crashed (s : Sys) (p : ProcId) : Prop where
  phase : s.phase p = .crashed
  workers : ∀ w, w.proc = p → s.pc w = .dead
  heartbeats : ∀ w, w.proc = p → s.heartbeat w = .exited

section

variable {cfg : Config} {t₀ : Time} {db : Db} {t : History Sys Event} {s s' : Sys} {e : Event}
  {p : ProcId}

theorem absent_step (unborn : ∀ w, s.phase w.proc = .absent → s.pc w = .absent)
    (taken : step cfg s e = some s') : ∀ w, s'.phase w.proc = .absent → s'.pc w = .absent := by
  intro w absent
  cases step_taken taken with
  | @worker w' act m moved =>
      have before := unborn w absent
      have other : w ≠ w' := by
        rintro rfl
        simp [Sys.runWorker, runWorker, executeJob, before] at moved
      simpa [Sys.moveWorker, other] using before
  | @start p starts =>
      have other : w.proc ≠ p := by
        rintro rfl
        simp [Sys.startProc] at absent
      simp only [Sys.startProc, Function.update_of_ne other] at absent
      simpa [Sys.startProc, other] using unborn w absent
  | @crash p up =>
      have other : w.proc ≠ p := by
        rintro rfl
        simp [Sys.crashProc] at absent
      simp only [Sys.crashProc, Function.update_of_ne other] at absent
      simpa [Sys.crashProc, other] using unborn w absent
  | _ => exact unborn w absent

/-- Before its process starts a worker does not exist. -/
theorem pc_of_absent (run : Runs cfg t₀ db t s) :
    ∀ w, s.phase w.proc = .absent → s.pc w = .absent :=
  run.invariant (P := fun _ s => ∀ w, s.phase w.proc = .absent → s.pc w = .absent)
    (fun _ _ => rfl) fun _ _ _ _ _ ih taken => absent_step ih taken

/-- `shutdown_event` is never cleared. -/
theorem shutdown_step (taken : step cfg s e = some s') (set : s.shutdown p = true) :
    s'.shutdown p = true := by
  cases step_taken taken with
  | @shutdown q up =>
      by_cases same : p = q
      · simp [same]
      · simpa [same] using set
  | _ => exact set

theorem crashed_of_crash (taken : step cfg s (.crash p) = some s') : Crashed s' p := by
  cases step_taken taken with
  | crash up =>
      refine ⟨?_, fun w mine => ?_, fun w mine => ?_⟩
      · simp [Sys.crashProc]
      · simp [Sys.crashProc, mine]
      · simp [Sys.crashProc, mine]

/-- A crashed process takes no step and is not started again. -/
theorem crashed_step (crashed : Crashed s p) (taken : step cfg s e = some s') : Crashed s' p := by
  obtain ⟨phase, workers, heartbeats⟩ := crashed
  cases step_taken taken with
  | @worker w act m moved =>
      refine ⟨phase, fun w' mine => ?_, heartbeats⟩
      have other : w' ≠ w := by
        rintro rfl
        simp [Sys.runWorker, runWorker, executeJob, workers w' mine] at moved
      simpa [Sys.moveWorker, other] using workers w' mine
  | @heartbeat w act l next =>
      refine ⟨phase, workers, fun w' mine => ?_⟩
      have other : w' ≠ w := by
        rintro rfl
        simp [loopNext, heartbeats w' mine] at next
      simpa [other] using heartbeats w' mine
  | @start q absent =>
      have other : p ≠ q := by
        rintro rfl
        cases absent.symm.trans phase
      refine ⟨?_, fun w mine => ?_, fun w mine => ?_⟩
      · simpa [Sys.startProc, other] using phase
      · simpa [Sys.startProc, mine, other] using workers w mine
      · simpa [Sys.startProc, mine, other] using heartbeats w mine
  | @crash q up =>
      have other : p ≠ q := by
        rintro rfl
        cases up.symm.trans phase
      refine ⟨?_, fun w mine => ?_, fun w mine => ?_⟩
      · simpa [Sys.crashProc, other] using phase
      · simpa [Sys.crashProc, mine, other] using workers w mine
      · simpa [Sys.crashProc, mine, other] using heartbeats w mine
  | _ => exact ⟨phase, workers, heartbeats⟩

theorem crashed_of_phase (run : Runs cfg t₀ db t s) : s.phase p = .crashed → Crashed s p := by
  refine run.invariant (P := fun _ s => s.phase p = .crashed → Crashed s p)
    (fun phase => by cases phase) ?_
  intro t s e s' _ ih taken phase
  by_cases before : s.phase p = .crashed
  · exact crashed_step (ih before) taken
  cases step_taken taken with
  | @start q absent =>
      by_cases same : p = q
      · simp [Sys.startProc, same] at phase
      · simp only [Sys.startProc, Function.update_of_ne same] at phase
        exact absurd phase before
  | @crash q up =>
      by_cases same : p = q
      · subst same
        exact crashed_of_crash taken
      · simp only [Sys.crashProc, Function.update_of_ne same] at phase
        exact absurd phase before
  | _ => exact absurd phase before

end

/-! ## Program points of enabled steps -/

section

variable {cfg : Config} {s : Sys} {w : WorkerId}

theorem moved_of_enabled {act : WorkerAct} (enabled : (step cfg s (.worker w act)).isSome = true) :
    ∃ m, s.runWorker cfg w act = some m := by
  obtain ⟨s', taken⟩ := Option.isSome_iff_exists.1 enabled
  cases step_taken taken with
  | worker moved => exact ⟨_, moved⟩

theorem loopHead_of_enabled (enabled : (step cfg s (.worker w .enterLoop)).isSome = true) :
    s.pc w = .loopHead := by
  obtain ⟨m, moved⟩ := moved_of_enabled enabled
  cases at_ : s.pc w with
  | loopHead => rfl
  | _ => simp [Sys.runWorker, runWorker, executeJob, at_] at moved

theorem marking_of_enabled
    (enabled : (step cfg s (.worker w (.markRunning false))).isSome = true) :
    ∃ job, s.pc w = .marking job := by
  obtain ⟨m, moved⟩ := moved_of_enabled enabled
  cases at_ : s.pc w with
  | marking job => exact ⟨job, rfl⟩
  | _ => simp [Sys.runWorker, runWorker, executeJob, at_] at moved

theorem starting_of_enabled (enabled : (step cfg s (.worker w .startHandler)).isSome = true) :
    ∃ job, s.pc w = .starting job := by
  obtain ⟨m, moved⟩ := moved_of_enabled enabled
  cases at_ : s.pc w with
  | starting job => exact ⟨job, rfl⟩
  | _ => simp [Sys.runWorker, runWorker, executeJob, at_] at moved

theorem storing_of_enabled (enabled : (step cfg s (.worker w (.storeDone none))).isSome = true) :
    ∃ job value, s.pc w = .storing job (.storable value) := by
  obtain ⟨m, moved⟩ := moved_of_enabled enabled
  cases at_ : s.pc w with
  | storing job value =>
      cases value with
      | storable value => exact ⟨job, value, rfl⟩
      | rejected => simp [Sys.runWorker, runWorker, executeJob, at_] at moved
  | _ => simp [Sys.runWorker, runWorker, executeJob, at_] at moved

end

/-! ## A small deployment -/

/-- Two workers a process and one job type, for the runs on fixed inputs. -/
def demo : Config where
  baseDelay := 5
  workerCount := 2
  registry := ["noop"]
  repr name := "'" ++ name ++ "'"

/-- A claim of `id` that scans `scanned` and meets no lock. -/
def demoPlan (scanned : List JobId) (returned : Option JobId) : ClaimPlan where
  scanned := scanned
  rowLocked := []
  rechecked := false
  returned := returned

/-- A worker at the head of its loop claims. -/
def demoClaim (w : WorkerId) (scanned : List JobId) (returned : Option JobId) : List Event :=
  [.worker w .enterLoop, .worker w .select, .worker w (.claim (demoPlan scanned returned))]

/-- An attempt at a job whose type has no handler. -/
def demoFail (w : WorkerId) : List Event :=
  [.worker w (.markRunning false), .worker w .startHandler, .worker w (.handleFailure false),
    .worker w (.unlock false)]

/-- An attempt that succeeds. -/
def demoDone (w : WorkerId) : List Event :=
  [.worker w (.markRunning false), .worker w .startHandler,
    .worker w (.handlerEnds (.obj []) (.returns (.storable none))), .worker w (.storeDone none),
    .worker w (.unlock false)]

/-- One sweep of a reaper that is due. -/
def demoSweep (p : ProcId) : List Event := [.reaper p .check, .reaper p .update, .reaper p .wake]

/-- A replay from empty tables is a run. -/
theorem demo_run (events : List Event) (test : History Sys Event × Sys → Bool)
    (passes : (exec (step demo) [] (Sys.boot 0 .empty) events).any test = true) :
    ∃ t s, Runs demo 0 .empty t s ∧ test (t, s) = true :=
  run_of_exec events test passes

/-- The events of a worker other than `w` do not occur. -/
def onlyWorker (w : WorkerId) (t : History Sys Event) : Bool :=
  t.all fun x =>
    match x.2 with
    | .worker w' _ => w' = w
    | _ => true

theorem only_of_onlyWorker {w : WorkerId} {t : History Sys Event} (only : onlyWorker w t = true) :
    ∀ a w' act, (a, .worker w' act) ∈ t → w' = w := by
  intro a w' act member
  simpa using List.all_eq_true.1 only _ member

end TaskQueue
