/-
# TaskQueue.Shutdown -- a process that is told to stop does stop

Once SIGTERM has set `shutdown_event`, every loop of the process is left at its next test.
`_main` waits for all of them: each worker finishes the job that it has, and each background
loop the UPDATE that it is in.  Nothing that other processes, clients or the clock do makes a
coroutine of this process start over; a handler that never ends keeps its worker for ever.

* `exists_admissible`: the claim query always has an answer, whatever rows are locked.
* `Pc.remaining` and `LoopPc.remaining` are the awaits that a coroutine has still to get past.
* `stopping` is the ranking of a process that has been told to stop.
* `shutdown_bounded` and `shutdown_ends` are what follows for runs, finite and infinite.
-/
import Mathlib.Algebra.BigOperators.Group.Finset.Basic
import Mathlib.Algebra.Group.Action.Defs
import Mathlib.Algebra.Order.BigOperators.Group.Finset
import Mathlib.Data.Finset.Max
import Mathlib.Data.Prod.Lex
import TaskQueue.ClaimOrder
import TaskQueue.Lib.Ranking
import TaskQueue.Registry

namespace TaskQueue

set_option autoImplicit false

open Transition

/-! ## The claim query has an answer -/

/-- The `ORDER BY` key of a row: `priority DESC, run_at ASC`. -/
def orderKey (jobs : SerialTable Job) (id : JobId) : ℤ ×ₗ Time :=
  match jobs.row id with
  | some r => toLex (-(r.priority.1 : ℤ), r.runAt)
  | none => toLex (0, 0)

theorem orderKey_lt {jobs : SerialTable Job} {a b : JobId}
    (before : comesBefore jobs a b = true) : orderKey jobs a < orderKey jobs b := by
  obtain ⟨r, r', rowA, rowB, less⟩ := comesBefore_iff.1 before
  simp only [orderKey, rowA, rowB, Prod.Lex.lt_iff, ofLex_toLex]
  rcases less with higher | ⟨same, sooner⟩
  · exact .inl (by omega)
  · exact .inr ⟨by omega, sooner⟩

/-- The evaluation that scans every eligible row before it answers. -/
def ClaimPlan.ofAll (snapshot : SerialTable Job) (startedAt : Time) (rowLocked : List JobId)
    (returned : Option JobId) : ClaimPlan where
  scanned := snapshot.keys.filter fun id => eligible startedAt snapshot id
  rowLocked := rowLocked
  rechecked := false
  returned := returned

/-- Whatever rows other transactions have locked, the query has an evaluation: it scans all
eligible rows and answers with the first of the surviving ones, if there is one. -/
theorem exists_admissible (locks : LockTable) (worker : WorkerId) (startedAt : Time)
    (snapshot latest : SerialTable Job) (rowLocked : List JobId) :
    ∃ returned, (ClaimPlan.ofAll snapshot startedAt rowLocked returned).Admissible locks worker
      startedAt snapshot latest := by
  have mem_scanned {returned : Option JobId} {id : JobId} :
      id ∈ (ClaimPlan.ofAll snapshot startedAt rowLocked returned).scanned ↔
        id ∈ snapshot.keys ∧ eligible startedAt snapshot id = true := List.mem_filter
  have distinct (returned : Option JobId) :
      (ClaimPlan.ofAll snapshot startedAt rowLocked returned).scanned.Nodup :=
    (List.nodup_range.filter _).filter _
  by_cases some_ : ∃ id, (ClaimPlan.ofAll snapshot startedAt rowLocked none).Survives locks worker
      startedAt latest id
  · -- the first survivor by the key of ORDER BY
    have mem_survivors {id : JobId} :
        id ∈ (ClaimPlan.ofAll snapshot startedAt rowLocked none).scanned.toFinset.filter (fun id =>
            (ClaimPlan.ofAll snapshot startedAt rowLocked none).Survives locks worker startedAt
              latest id) ↔
          (ClaimPlan.ofAll snapshot startedAt rowLocked none).Survives locks worker startedAt
            latest id := by
      rw [Finset.mem_filter, List.mem_toFinset]
      exact and_iff_right_of_imp fun survives => survives.1
    obtain ⟨first, survives, least⟩ := Finset.exists_min_image _ (orderKey snapshot)
      (some_.imp fun _ => mem_survivors.2)
    refine ⟨some first, distinct _, fun id member => (mem_scanned.1 member).2,
      fun id answer => ?_, fun id key due ahead => ⟨mem_scanned.2 ⟨key, due⟩, fun also => ?_⟩⟩
    · rw [← Option.some.inj answer]
      exact mem_survivors.1 survives
    · exact not_lt_of_ge (least id (mem_survivors.2 also)) (orderKey_lt ahead)
  · refine ⟨none, distinct _, fun id member => (mem_scanned.1 member).2,
      fun id answer => ?_, fun id key due _ => ⟨mem_scanned.2 ⟨key, due⟩, fun also => ?_⟩⟩
    · cases answer
    · exact some_ ⟨id, also⟩

/-! ## What a coroutine has still to do -/

def Pc.ended : Pc → Bool
  | .absent | .exited _ | .dead => true
  | _ => false

/-- The steps that a worker takes at most, once `shutdown_event` is set. -/
def Pc.remaining : Pc → ℕ
  | .absent | .exited _ | .dead => 0
  | .closing _ _ => 1
  | .loopHead => 2
  | .connecting | .waiting | .unlocking _ _ => 3
  | .failing _ _ => 4
  | .storing _ _ => 5
  | .handling _ => 6
  | .starting _ => 7
  | .marking _ => 8
  | .claiming _ _ => 9
  | .begun _ => 10

def LoopPc.ended : LoopPc → Bool
  | .absent | .exited => true
  | _ => false

def LoopPc.remaining : LoopPc → ℕ
  | .absent | .exited => 0
  | .checking | .sleeping => 1
  | .updating => 2

/-- The `gather` of `_main` returns: every coroutine of the process has ended. -/
structure ProcEnded (s : Sys) (p : ProcId) : Prop where
  workers : ∀ w, w.proc = p → (s.pc w).ended = true
  heartbeats : ∀ w, w.proc = p → (s.heartbeat w).ended = true
  reaper : (s.reaper p).ended = true

/-- The event is a step of a coroutine of process `p`. -/
def Event.ofProc (p : ProcId) : Event → Bool
  | .worker w _ | .heartbeat w _ => w.proc = p
  | .reaper q _ => q = p
  | _ => false

/-- The act is an await that raises, other than a handler that fails. -/
def WorkerAct.raises : WorkerAct → Bool
  | .connect ok => !ok
  | .claimRaises _ => true
  | .handlerEnds _ .raisesBase => true
  | .storeDone error => error.isSome
  | .markRunning raises | .handleFailure raises | .unlock raises | .close raises => raises
  | _ => false

/-- The worker is about to store a value that the `'done'` UPDATE rejects. -/
def Pc.rejected : Pc → Bool
  | .storing _ .rejected => true
  | _ => false

/-- The worker has a handler under way. -/
def Pc.inHandler : Pc → Bool
  | .handling _ => true
  | _ => false

/-- A step of process `p`; if a handler ends in it, it is that of the registry which returns or
raises. -/
def Regular (cfg : Config) (registry : Registry) (p : ProcId) (s : Sys) (e : Event) : Prop :=
  e.ofProc p = true ∧ ∀ w job payload outcome, e = .worker w (.handlerEnds payload outcome) →
    s.pc w = .handling job →
    payload = job.payload ∧ (registry.handler cfg.repr job.type).Ends job outcome ∧
      outcome ≠ .raisesBase

/-- All that the coroutines of process `p` have still to do. -/
def remaining (cfg : Config) (p : ProcId) (s : Sys) : ℕ :=
  (∑ slot ∈ Finset.range cfg.workerCount,
    ((s.pc ⟨p, slot⟩).remaining + (s.heartbeat ⟨p, slot⟩).remaining)) + (s.reaper p).remaining

/-- The process was told to stop, and has no workers but those that it started. -/
structure Stopping (cfg : Config) (p : ProcId) (s : Sys) : Prop where
  set : s.shutdown p = true
  started : s.phase p ≠ .absent
  outside : ∀ w, w.proc = p → cfg.workerCount ≤ w.slot →
    (s.pc w).ended = true ∧ (s.heartbeat w).ended = true

section

variable {cfg : Config} {registry : Registry} {t₀ : Time} {db : Db} {t u : History Sys Event}
  {s s' : Sys} {e : Event} {p : ProcId} {w : WorkerId}

theorem Pc.ended_iff {pc : Pc} : pc.ended = true ↔ pc.remaining = 0 := by
  cases pc <;> simp [ended, remaining]

theorem LoopPc.ended_iff {l : LoopPc} : l.ended = true ↔ l.remaining = 0 := by
  cases l <;> simp [ended, remaining]

theorem Pc.remaining_le (pc : Pc) : pc.remaining ≤ 10 := by
  cases pc <;> simp [remaining]

theorem LoopPc.remaining_le (l : LoopPc) : l.remaining ≤ 2 := by
  cases l <;> simp [remaining]

theorem remaining_le (cfg : Config) (p : ProcId) (s : Sys) :
    remaining cfg p s ≤ 12 * cfg.workerCount + 2 := by
  have workers : (∑ slot ∈ Finset.range cfg.workerCount,
      ((s.pc ⟨p, slot⟩).remaining + (s.heartbeat ⟨p, slot⟩).remaining)) ≤
        (Finset.range cfg.workerCount).card • 12 :=
    Finset.sum_le_card_nsmul _ _ 12 fun slot _ =>
      Nat.add_le_add (Pc.remaining_le _) (LoopPc.remaining_le _)
  have reaper := LoopPc.remaining_le (s.reaper p)
  rw [Finset.card_range, smul_eq_mul] at workers
  rw [remaining]
  omega

/-! ## One step -/

theorem executeJob_remaining {locks : LockTable} {pc : Pc} {act : WorkerAct} {m : Move}
    (moved : executeJob cfg locks w pc act = some m) : m.pc.remaining < pc.remaining := by
  unfold executeJob at moved
  split at moved
  case h_3 =>
    split at moved <;> cases moved <;> simp [Pc.remaining]
  case h_11 id raised raises =>
    cases moved
    cases raised <;> simp [Pc.remaining]
  case h_12 => cases moved
  all_goals
    cases moved
    simp [Pc.remaining]

/-- A step of a worker brings it nearer to the head of its loop, and past it to its end if
`shutdown_event` is set. -/
theorem runWorker_remaining {act : WorkerAct} {m : Move}
    (moved : s.runWorker cfg w act = some m)
    (goes : s.shutdown w.proc = true ∨ s.pc w ≠ .loopHead) :
    m.pc.remaining < (s.pc w).remaining := by
  unfold Sys.runWorker at moved
  cases looks : (s.pc w).looking with
  | true =>
      have looking := runWorker_looks moved looks
      generalize s.pc w = pc, m.pc = pc' at looking goes ⊢
      cases looking <;> simp_all [Pc.remaining]
  | false =>
      unfold runWorker at moved
      split at moved
      case h_7 =>
        rename_i at_
        cases moved
        simp [at_, Pc.remaining]
      case h_8 => exact executeJob_remaining moved
      all_goals simp_all [Pc.looking]

theorem loopNext_remaining {l l' : LoopPc} {act : LoopAct} (next : loopNext true l act = some l') :
    l'.remaining < l.remaining := by
  cases l <;> cases act <;> cases next <;> simp [LoopPc.remaining]

/-- A worker that has ended takes no step. -/
theorem not_ended_of_moved {act : WorkerAct} {m : Move} (moved : s.runWorker cfg w act = some m) :
    (s.pc w).ended = false := by
  unfold Sys.runWorker at moved
  cases at_ : s.pc w with
  | absent => simp [runWorker, executeJob, at_] at moved
  | exited raised => simp [runWorker, executeJob, at_] at moved
  | dead => simp [runWorker, executeJob, at_] at moved
  | _ => rfl

theorem not_ended_of_next {l l' : LoopPc} {act : LoopAct} {set : Bool}
    (next : loopNext set l act = some l') : l.ended = false := by
  cases l <;> first | rfl | (cases act <;> cases next)

/-- A worker without a step of its own stays where it is, unless its process starts or
crashes. -/
theorem pc_remaining_le (stopping : Stopping cfg p s) (taken : step cfg s e = some s')
    (mine : w.proc = p) : (s'.pc w).remaining ≤ (s.pc w).remaining := by
  subst mine
  cases worker_step taken w with
  | moves _ moved pc _ =>
      rw [pc]
      exact (runWorker_remaining moved (.inl stopping.set)).le
  | stays _ _ pc _ => exact le_of_eq (congrArg Pc.remaining pc)
  | spawns absent _ _ => exact absurd absent stopping.started
  | dies _ pc _ =>
      rw [pc]
      exact Nat.zero_le _

theorem heartbeat_remaining_le (stopping : Stopping cfg p s) (taken : step cfg s e = some s')
    (mine : w.proc = p) : (s'.heartbeat w).remaining ≤ (s.heartbeat w).remaining := by
  subst mine
  cases step_taken taken with
  | @heartbeat w' act l next =>
      by_cases own : w = w'
      · subst own
        rw [stopping.set] at next
        simpa using (loopNext_remaining next).le
      · simp [own]
  | @start q absent =>
      have other : w.proc ≠ q := by
        rintro rfl
        exact stopping.started absent
      simp [Sys.startProc, other]
  | @crash q _ =>
      by_cases dies : w.proc = q
      · simp [Sys.crashProc, dies, LoopPc.remaining]
      · simp [Sys.crashProc, dies]
  | _ => exact le_refl _

theorem reaper_remaining_le (stopping : Stopping cfg p s) (taken : step cfg s e = some s') :
    (s'.reaper p).remaining ≤ (s.reaper p).remaining := by
  cases step_taken taken with
  | @reaper q act l next =>
      by_cases own : p = q
      · subst own
        rw [stopping.set] at next
        simpa using (loopNext_remaining next).le
      · simp [own]
  | @start q absent =>
      have other : p ≠ q := by
        rintro rfl
        exact stopping.started absent
      simp [Sys.startProc, other]
  | @crash q _ =>
      by_cases dies : p = q
      · subst dies
        simp [Sys.crashProc, LoopPc.remaining]
      · simp [Sys.crashProc, dies]
  | _ => exact le_refl _

/-- A step of the process brings one of its coroutines nearer to its end, and no step takes
one further away. -/
theorem remaining_falls (stopping : Stopping cfg p s) (taken : step cfg s e = some s') :
    remaining cfg p s' + (if e.ofProc p then 1 else 0) ≤ remaining cfg p s := by
  have pcs (slot : ℕ) := pc_remaining_le stopping taken (w := ⟨p, slot⟩) rfl
  have beats (slot : ℕ) := heartbeat_remaining_le stopping taken (w := ⟨p, slot⟩) rfl
  have reaps := reaper_remaining_le stopping taken
  -- a slot that the process started, with one step less to do
  have falls (w : WorkerId) (mine : w.proc = p) (inside : w.slot < cfg.workerCount)
      (less : (s'.pc w).remaining + (s'.heartbeat w).remaining <
        (s.pc w).remaining + (s.heartbeat w).remaining) :
      remaining cfg p s' < remaining cfg p s := by
    subst mine
    refine Nat.add_lt_add_of_lt_of_le ?_ reaps
    exact Finset.sum_lt_sum (fun slot _ => Nat.add_le_add (pcs slot) (beats slot))
      ⟨w.slot, Finset.mem_range.2 inside, less⟩
  have slots := Finset.sum_le_sum (s := Finset.range cfg.workerCount) fun slot _ =>
    Nat.add_le_add (pcs slot) (beats slot)
  have falls' (less : (s'.reaper p).remaining < (s.reaper p).remaining) :
      remaining cfg p s' < remaining cfg p s := Nat.add_lt_add_of_le_of_lt slots less
  by_cases mine : e.ofProc p = true
  case neg =>
    rw [if_neg mine, Nat.add_zero]
    exact Nat.add_le_add slots reaps
  rw [if_pos mine]
  cases step_taken taken with
  | @worker w act m moved =>
      have mine : w.proc = p := decide_eq_true_iff.1 mine
      subst mine
      refine falls w rfl ?_ ?_
      · by_contra beyond
        have ended := (stopping.outside w rfl (not_lt.1 beyond)).1
        cases ended.symm.trans (not_ended_of_moved moved)
      · refine Nat.add_lt_add_of_lt_of_le ?_ (beats w.slot)
        simpa [Sys.moveWorker] using runWorker_remaining moved (.inl stopping.set)
  | @heartbeat w act l next =>
      have mine : w.proc = p := decide_eq_true_iff.1 mine
      subst mine
      refine falls w rfl ?_ ?_
      · by_contra beyond
        have ended := (stopping.outside w rfl (not_lt.1 beyond)).2
        cases ended.symm.trans (not_ended_of_next next)
      · apply Nat.add_lt_add_of_le_of_lt (pcs w.slot)
        rw [stopping.set] at next
        simpa using loopNext_remaining next
  | @reaper q act l next =>
      have mine : q = p := decide_eq_true_iff.1 mine
      subst mine
      rw [stopping.set] at next
      exact falls' (by simpa using loopNext_remaining next)
  | _ => cases mine

theorem started_step (started : s.phase p ≠ .absent) (taken : step cfg s e = some s') :
    s'.phase p ≠ .absent := by
  cases step_taken taken with
  | @start q absent =>
      by_cases same : p = q
      · simp [Sys.startProc, same]
      · simpa [Sys.startProc, same] using started
  | @crash q up =>
      by_cases same : p = q
      · simp [Sys.crashProc, same]
      · simpa [Sys.crashProc, same] using started
  | _ => exact started

theorem stopping_step (stopping : Stopping cfg p s) (taken : step cfg s e = some s') :
    Stopping cfg p s' where
  set := shutdown_step taken stopping.set
  started := started_step stopping.started taken
  outside w mine beyond := by
    obtain ⟨pc, beat⟩ := stopping.outside w mine beyond
    rw [Pc.ended_iff] at pc ⊢
    rw [LoopPc.ended_iff] at beat ⊢
    have pcs := pc_remaining_le stopping taken mine
    have beats := heartbeat_remaining_le stopping taken mine
    omega

/-- The ranking of a process that was told to stop. -/
def stopping (cfg : Config) (p : ProcId) : Ranking (step cfg) (Event.ofProc p) where
  inv := Stopping cfg p
  rank := remaining cfg p
  kept := stopping_step
  falls := remaining_falls

/-- No process has workers in slots that it does not start. -/
theorem outside_of_run (run : Runs cfg t₀ db t s) :
    ∀ w, cfg.workerCount ≤ w.slot → (s.pc w).ended = true ∧ (s.heartbeat w).ended = true := by
  refine run.invariant (P := fun _ s => ∀ w, cfg.workerCount ≤ w.slot →
    (s.pc w).ended = true ∧ (s.heartbeat w).ended = true) (fun _ _ => ⟨rfl, rfl⟩) ?_
  intro t s e s' _ ih taken w beyond
  obtain ⟨pc, beat⟩ := ih w beyond
  cases step_taken taken with
  | @worker w' act m moved =>
      have other : w ≠ w' := by
        rintro rfl
        cases pc.symm.trans (not_ended_of_moved moved)
      exact ⟨by simpa [Sys.moveWorker, other] using pc, beat⟩
  | @heartbeat w' act l next =>
      have other : w ≠ w' := by
        rintro rfl
        cases beat.symm.trans (not_ended_of_next next)
      exact ⟨pc, by simpa [other] using beat⟩
  | @start q absent =>
      have other : ¬ (w.proc = q ∧ w.slot < cfg.workerCount) := fun spawned =>
        absurd spawned.2 (not_lt.2 beyond)
      exact ⟨by simpa [Sys.startProc, other] using pc, by simpa [Sys.startProc, other] using beat⟩
  | @crash q up =>
      by_cases dies : w.proc = q
      · exact ⟨by simp [Sys.crashProc, dies, Pc.ended], by simp [Sys.crashProc, dies, LoopPc.ended]⟩
      · exact ⟨by simpa [Sys.crashProc, dies] using pc, by simpa [Sys.crashProc, dies] using beat⟩
  | _ => exact ⟨pc, beat⟩

/-- Only a process that was started is told to stop. -/
theorem started_of_set (run : Runs cfg t₀ db t s) : s.shutdown p = true → s.phase p ≠ .absent := by
  refine run.invariant (P := fun _ s => s.shutdown p = true → s.phase p ≠ .absent)
    (fun set => by cases set) ?_
  intro t s e s' _ ih taken set
  by_cases before : s.shutdown p = true
  · exact started_step (ih before) taken
  · cases step_taken taken with
    | @shutdown q up =>
        have same : p = q := by
          by_contra other
          exact before (by simpa [other] using set)
        simp [same, up]
    | _ => exact absurd set before

theorem stopping_of_run (run : Runs cfg t₀ db t s) (set : s.shutdown p = true) :
    Stopping cfg p s :=
  ⟨set, started_of_set run set, fun w _ => outside_of_run run w⟩

/-! ## No coroutine is stuck -/

/-- An evaluation of the claim query ends the claim. -/
theorem claim_goesOn {locks : LockTable} {jobs snapshot : SerialTable Job} {startedAt : Time}
    {plan : ClaimPlan} (admissible : plan.Admissible locks w startedAt snapshot jobs) :
    ∃ m, tryClaim locks jobs w snapshot startedAt plan = some m := by
  rw [tryClaim, if_pos admissible]
  cases answer : plan.returned with
  | none => exact ⟨_, rfl⟩
  | some id =>
      obtain ⟨-, -, due⟩ := claim_facts admissible answer
      obtain ⟨r, row, -⟩ := eligible_iff.1 due
      exact ⟨_, Option.map_eq_some_iff.2 ⟨r, row, rfl⟩⟩

/-- A worker that has not ended and has no handler under way can take a step, and need not raise
unless the value that it stores is rejected. -/
theorem worker_goesOn (going : (s.pc w).ended = false) (free : (s.pc w).inHandler = false) :
    ∃ act s', step cfg s (.worker w act) = some s' ∧
      (act.raises = false ∨ (s.pc w).rejected = true) := by
  have enabled {act : WorkerAct} {m : Move} (moved : s.runWorker cfg w act = some m)
      (calm : act.raises = false ∨ (s.pc w).rejected = true) :
      ∃ act s', step cfg s (.worker w act) = some s' ∧
        (act.raises = false ∨ (s.pc w).rejected = true) :=
    ⟨act, _, step_of_moved moved, calm⟩
  unfold Sys.runWorker at enabled
  cases at_ : s.pc w with
  | absent => cases (congrArg Pc.ended at_).symm.trans going
  | exited raised => cases (congrArg Pc.ended at_).symm.trans going
  | dead => cases (congrArg Pc.ended at_).symm.trans going
  | connecting =>
      rw [at_] at enabled
      exact @enabled (.connect true) _ rfl (.inl rfl)
  | loopHead =>
      rw [at_] at enabled
      exact @enabled (.enterLoop) _ rfl (.inl rfl)
  | begun startedAt =>
      rw [at_] at enabled
      exact @enabled (.select) _ rfl (.inl rfl)
  | claiming snapshot startedAt =>
      rw [at_] at enabled
      obtain ⟨returned, admissible⟩ :=
        exists_admissible s.locks w startedAt snapshot s.db.jobs []
      obtain ⟨m, claims⟩ := claim_goesOn admissible
      exact @enabled (.claim (.ofAll snapshot startedAt [] returned)) m claims (.inl rfl)
  | marking job =>
      rw [at_] at enabled
      exact @enabled (.markRunning false) _ rfl (.inl rfl)
  | starting job =>
      rw [at_] at enabled
      cases found : getHandler cfg job.type with
      | ok _ =>
          refine @enabled .startHandler { pc := .handling job, locks := s.locks } ?_ (.inl rfl)
          simp only [runWorker, executeJob, found]
      | error e =>
          refine @enabled .startHandler { pc := .failing job e, locks := s.locks } ?_ (.inl rfl)
          simp only [runWorker, executeJob, found]
  | handling job => cases (congrArg Pc.inHandler at_).symm.trans free
  | storing job value =>
      rw [at_] at enabled
      cases value with
      | storable value => exact @enabled (.storeDone none) _ rfl (.inl rfl)
      | rejected => exact @enabled (.storeDone (some ⟨"DataError", ""⟩)) _ rfl (.inr rfl)
  | failing job error =>
      rw [at_] at enabled
      exact @enabled (.handleFailure false) _ rfl (.inl rfl)
  | unlocking id raised =>
      rw [at_] at enabled
      exact @enabled (.unlock false) _ rfl (.inl rfl)
  | waiting =>
      rw [at_] at enabled
      exact @enabled (.wake) _ rfl (.inl rfl)
  | closing raised left =>
      rw [at_] at enabled
      exact @enabled (.close false) _ rfl (.inl rfl)

theorem loop_goesOn {l : LoopPc} (set : Bool) (going : l.ended = false) :
    ∃ act l', loopNext set l act = some l' := by
  cases l with
  | checking => exact ⟨.check, _, rfl⟩
  | updating => exact ⟨.update, _, rfl⟩
  | sleeping => exact ⟨.wake, _, rfl⟩
  | absent => cases going
  | exited => cases going

/-- A handler under way that ends lets its worker go on. -/
theorem handler_goesOn (total : registry.Total cfg.repr) {job : Record}
    (at_ : s.pc w = .handling job) :
    ∃ e s', Regular cfg registry w.proc s e ∧ step cfg s e = some s' := by
  have ends_by {outcome : HandlerOutcome} {m : Move}
      (ends : (registry.handler cfg.repr job.type).Ends job outcome)
      (uncancelled : outcome ≠ .raisesBase)
      (moved : s.runWorker cfg w (.handlerEnds job.payload outcome) = some m) :
      ∃ e s', Regular cfg registry w.proc s e ∧ step cfg s e = some s' := by
    refine ⟨.worker w (.handlerEnds job.payload outcome), _, ⟨decide_eq_true rfl, ?_⟩,
      step_of_moved moved⟩
    intro w' job' payload outcome' same at_'
    cases same
    cases at_.symm.trans at_'
    exact ⟨rfl, ends, uncancelled⟩
  obtain ⟨fuel, out, ends⟩ := total job
  cases out with
  | ok value => exact ends_by (.returns ends) (by simp) (by rw [Sys.runWorker, at_]; rfl)
  | error e => exact ends_by (.raises ends) (by simp) (by rw [Sys.runWorker, at_]; rfl)

/-- A process that has not ended can take a step, as long as handlers end. -/
theorem proc_goesOn (total : registry.Total cfg.repr) (going : ¬ ProcEnded s p) :
    ∃ e s', Regular cfg registry p s e ∧ step cfg s e = some s' := by
  by_contra stuck
  refine going ⟨fun w mine => ?_, fun w mine => ?_, ?_⟩
  · by_contra alive
    cases at_ : s.pc w with
    | handling job => exact stuck (mine ▸ handler_goesOn total at_)
    | _ =>
        have next : ∃ act s', step cfg s (.worker w act) = some s' ∧ _ :=
          worker_goesOn (eq_false_of_ne_true alive) (by rw [at_]; rfl)
        obtain ⟨act, s', taken, -⟩ := next
        refine stuck ⟨.worker w act, s', ⟨decide_eq_true mine, ?_⟩, taken⟩
        intro w' job payload outcome same at_'
        cases same
        cases at_.symm.trans at_'
  · by_contra alive
    obtain ⟨act, l, next⟩ := loop_goesOn (s.shutdown w.proc) (eq_false_of_ne_true alive)
    refine stuck ⟨.heartbeat w act, _, ⟨decide_eq_true mine, ?_⟩,
      by simp [step, control, next]; rfl⟩
    intro w' job payload outcome same
    cases same
  · by_contra alive
    obtain ⟨act, l, next⟩ := loop_goesOn (s.shutdown p) (eq_false_of_ne_true alive)
    refine stuck ⟨.reaper p act, _, ⟨decide_eq_true rfl, ?_⟩,
      by simp [step, control, next]; rfl⟩
    intro w' job payload outcome same
    cases same

/-- A process that is to stop has ended when nothing remains. -/
theorem ended_iff_remaining (stopping : Stopping cfg p s) :
    ProcEnded s p ↔ remaining cfg p s = 0 := by
  rw [remaining, Nat.add_eq_zero_iff, Finset.sum_eq_zero_iff, ← LoopPc.ended_iff]
  constructor
  · rintro ⟨workers, heartbeats, reaper⟩
    refine ⟨fun slot _ => ?_, reaper⟩
    rw [Nat.add_eq_zero_iff, ← Pc.ended_iff, ← LoopPc.ended_iff]
    exact ⟨workers ⟨p, slot⟩ rfl, heartbeats ⟨p, slot⟩ rfl⟩
  · rintro ⟨slots, reaper⟩
    have both (w : WorkerId) (mine : w.proc = p) :
        (s.pc w).ended = true ∧ (s.heartbeat w).ended = true := by
      by_cases inside : w.slot < cfg.workerCount
      · subst mine
        have none_ := slots w.slot (Finset.mem_range.2 inside)
        rw [Nat.add_eq_zero_iff, ← Pc.ended_iff, ← LoopPc.ended_iff] at none_
        exact none_
      · exact stopping.outside w mine (not_lt.1 inside)
    exact ⟨fun w mine => (both w mine).1, fun w mine => (both w mine).2, reaper⟩

end

/-- **A shutdown takes a bounded number of steps.**  From the signal on, however the steps of
everyone interleave, the coroutines of the process take at most 12 steps a worker and 2 for the
reaper.  No worker is stuck on the way but in a handler: until it has ended it has a handler under
way, or can take a step that does not raise, unless the value that it stores is rejected.  And
where every handler of the registry ends, from every state on the way the process can end by
steps of its own. -/
theorem shutdown_bounded (cfg : Config) (t₀ : Time) (db : Db) {t u : History Sys Event}
    {s s' : Sys} (run : Runs cfg t₀ db t s) (p : ProcId) (set : s.shutdown p = true)
    (rest : Run (step cfg) s u s') :
    tally (fun _ e => e.ofProc p) u ≤ 12 * cfg.workerCount + 2 ∧
      (∀ w, w.proc = p → (s'.pc w).ended = true ∨ (s'.pc w).inHandler = true ∨
        ∃ act s'', step cfg s' (.worker w act) = some s'' ∧
          (act.raises = false ∨ (s'.pc w).rejected = true)) ∧
      ∀ registry : Registry, registry.Total cfg.repr →
        ∃ v s'', Run (step cfg) s' v s'' ∧ (∀ x ∈ v, Regular cfg registry p x.1 x.2) ∧
          ProcEnded s'' p := by
  have start := stopping_of_run run set
  refine ⟨?_, fun w _ => ?_, fun registry total => ?_⟩
  · exact Nat.le_trans ((stopping cfg p).tally_le start rest) (remaining_le cfg p s)
  · cases ended : (s'.pc w).ended with
    | true => exact .inl rfl
    | false =>
        right
        cases free : (s'.pc w).inHandler with
        | true => exact .inl rfl
        | false => exact .inr (worker_goesOn ended free)
  · exact (stopping cfg p).finishes (ProcEnded · p) (Regular cfg registry p) (fun now => now.1)
      (fun _ _ going => proc_goesOn total going) ((stopping cfg p).kept_run start rest)

/-- A registry of the `noop` handler alone ends on every job. -/
theorem total_noop :
    (Registry.register ∅ "noop" Builtin.noop).Total demo.repr := by
  intro job
  unfold Registry.handler
  cases got : Registry.get demo.repr (Registry.register ∅ "noop" Builtin.noop) job.type with
  | error e => exact ⟨0, .error e, rfl⟩
  | ok fn =>
      refine ⟨0, .ok (.obj [("ok", .bool true)]), ?_⟩
      unfold Registry.get at got
      rw [lookup_register] at got
      by_cases noop : job.type = "noop"
      · rw [if_pos noop] at got
        cases got
        rfl
      · rw [if_neg noop] at got
        cases got

/-- A step of a process with two workers that have just been told to stop. -/
theorem shutdown_bounded_two_workers :
    ∃ t u s s', Runs demo 0 .empty t s ∧ Run (step demo) s u s' ∧
      tally (fun _ e => e.ofProc 0) u ≤ 26 ∧
      ∃ v s'', Run (step demo) s' v s'' ∧ ProcEnded s'' 0 := by
  obtain ⟨t, s, run, after⟩ := demo_run
    [.start 0, .worker ⟨0, 0⟩ (.connect true), .shutdown 0]
    (fun out => out.2.shutdown 0 && (step demo out.2 (.worker ⟨0, 0⟩ .enterLoop)).isSome)
    (by decide +kernel)
  rw [Bool.and_eq_true, Option.isSome_iff_exists] at after
  obtain ⟨set, s', taken⟩ := after
  obtain ⟨bound, -, ends⟩ := shutdown_bounded demo 0 .empty run 0 set (Run.single taken)
  obtain ⟨v, s'', rest, -, ended⟩ := ends _ total_noop
  exact ⟨t, _, s, s', run, Run.single taken, bound, v, s'', rest, ended⟩

/-- **A shutdown ends.**  In every infinite run in which some coroutine of the process goes on
as long as one of them has not ended (a handler that ends is a coroutine that goes on), whatever
else happens in between, there is a moment from which on all of them have ended: `_main`
returns. -/
theorem shutdown_ends (cfg : Config) (t₀ : Time) (db : Db) {t : History Sys Event} {s : Sys}
    (run : Runs cfg t₀ db t s) (p : ProcId) (set : s.shutdown p = true) (states : ℕ → Sys)
    (events : ℕ → Event) (unfolds : Unfolds (step cfg) s states events)
    (scheduled : ∀ n, ¬ ProcEnded (states n) p → ∃ m, n ≤ m ∧ (events m).ofProc p = true) :
    ∃ n, ∀ m, n ≤ m → ProcEnded (states m) p := by
  have start := stopping_of_run run set
  have kept := (stopping cfg p).kept_always start unfolds
  obtain ⟨n, ended⟩ := (stopping cfg p).eventually (ProcEnded · p) start unfolds scheduled
  refine ⟨n, fun m later => ?_⟩
  rw [ended_iff_remaining (kept _)] at ended ⊢
  exact Nat.le_zero.1 (ended ▸ (stopping cfg p).antitone start unfolds later)

/-- The reaper is the last coroutine to end; after that only time passes. -/
theorem shutdown_ends_reaper :
    ∃ t s, Runs demo 0 .empty t s ∧ ¬ ProcEnded s 0 ∧ ∃ states : ℕ → Sys, states 0 = s ∧
      ∃ n, ∀ m, n ≤ m → ProcEnded (states m) 0 := by
  obtain ⟨t, s, run, after⟩ := demo_run
    [.start 0, .shutdown 0, .worker ⟨0, 0⟩ (.connect false), .worker ⟨0, 1⟩ (.connect false),
      .heartbeat ⟨0, 0⟩ .check, .heartbeat ⟨0, 1⟩ .check]
    (fun out => out.2.shutdown 0 && !(out.2.reaper 0).ended &&
      (step demo out.2 (.reaper 0 .check)).any fun s' => remaining demo 0 s' = 0)
    (by decide +kernel)
  simp only [Bool.and_eq_true, Bool.not_eq_true', Option.any_eq_true, decide_eq_true_eq] at after
  obtain ⟨⟨set, going⟩, s', taken, none_⟩ := after
  have ended : ProcEnded s' 0 :=
    (ended_iff_remaining (stopping_of_run (run.snoc taken) (shutdown_step taken set))).2 none_
  have waits : step demo s' (.tick 0) = some s' := by simp [step, control, committed, Db.commit]
  refine ⟨t, s, run, fun all => ?_, fun n => if n = 0 then s else s', rfl, ?_⟩
  · cases all.reaper.symm.trans going
  refine shutdown_ends demo 0 .empty run 0 set _
    (fun n => if n = 0 then .reaper 0 .check else .tick 0) ⟨rfl, fun n => ?_⟩ fun n unended => ?_
  · cases n with
    | zero => exact taken
    | succ n => exact waits
  · cases n with
    | zero => exact ⟨0, Nat.le_refl 0, rfl⟩
    | succ n => exact absurd ended unended

end TaskQueue
