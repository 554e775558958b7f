/-
# TaskQueue.CrashRecovery -- what a crash leaves to the reaper

A crash stops a process between any two steps and leaves its rows as they are.  Nothing
but a sweep touches such a row again (`orphan_run`), so whether the reaper ever finds it
depends on its `heartbeat_at` alone: the claim does not write that column, and no sweep
matches a row in which it is `NULL`.

* `Marked` reads off the history whether the job was marked running since its INSERT or
  its last reset; `dated_of_run` says that this is when `heartbeat_at` is set.
-/
import Mathlib.Tactic.Linarith
import TaskQueue.Ownership

namespace TaskQueue

set_option autoImplicit false

open Transition

/-- Job `j` was marked running since it was inserted or last reset by a sweep. -/
def Marked (cfg : Config) (j : JobId) : History Sys Event → Prop
  | [] => False
  | (s, e) :: t =>
      (committed cfg s e = some (.markRunning j) ∧ ∃ r, s.db.jobs.row j = some r) ∨
        (Marked cfg j t ∧ ¬ Sweeps cfg s e j)

/-- What `heartbeat_at` says of a row. -/
structure Dated (now : Time) (marked : Prop) (r : Job) : Prop where
  running : r.status = .running → r.heartbeatAt ≠ none
  past : ∀ h, r.heartbeatAt = some h → h ≤ now
  marked : r.status ≠ .done → (r.heartbeatAt ≠ none ↔ marked)

section

variable {cfg : Config} {t₀ : Time} {db : Db} {t u : History Sys Event} {s s' : Sys} {e : Event}
  {w : WorkerId} {p : ProcId} {j : JobId} {r r' : Job}

/-! ## `heartbeat_at` over a run -/

theorem marked_cons (steady : ¬ Sweeps cfg s e j)
    (other : committed cfg s e ≠ some (.markRunning j)) :
    Marked cfg j ((s, e) :: t) ↔ Marked cfg j t := by
  constructor
  · rintro (⟨now, -⟩ | ⟨before, -⟩)
    · exact absurd now other
    · exact before
  · intro before
    exact .inr ⟨before, steady⟩

/-- A row without a `heartbeat_at`. -/
theorem Dated.of_blank {now : Time} {marked : Prop} (blank : r.heartbeatAt = none)
    (still : r.status ≠ .running) (unmarked : r.status ≠ .done → ¬ marked) :
    Dated now marked r where
  running running := absurd running still
  past h set := by cases blank.symm.trans set
  marked notDone := ⟨fun set => absurd blank set, fun marked => absurd marked (unmarked notDone)⟩

theorem dated_step (dated : Dated s.now (Marked cfg j t) r) (row : s.db.jobs.row j = some r)
    (taken : step cfg s e = some s') (row' : s'.db.jobs.row j = some r')
    (change : RowStep cfg t s e j r (some r')) :
    Dated s'.now (Marked cfg j ((s, e) :: t)) r' := by
  have later := step_now taken
  -- a statement that leaves `heartbeat_at` and the marks alone
  have same (quiet : Marked cfg j ((s, e) :: t) ↔ Marked cfg j t)
      (column : r'.heartbeatAt = r.heartbeatAt) (stays : r'.status = .running → r.status = .running)
      (open_ : r'.status ≠ .done → r.status ≠ .done) :
      Dated s'.now (Marked cfg j ((s, e) :: t)) r' := by
    rw [quiet]
    refine ⟨fun running => ?_, fun h at_ => ?_, fun notDone => ?_⟩
    · rw [column]
      exact dated.running (stays running)
    · rw [column] at at_
      exact le_trans (dated.past h at_) later
    · rw [column]
      exact dated.marked (open_ notDone)
  have touched (marked : Marked cfg j ((s, e) :: t)) (column : r'.heartbeatAt = some s.now) :
      Dated s'.now (Marked cfg j ((s, e) :: t)) r' := by
    refine ⟨fun _ => by simp [column], fun h at_ => ?_, fun _ => ?_⟩
    · rw [column] at at_
      cases at_
      exact later
    · simp [column, marked]
  cases change with
  | keeps undecided _ =>
      by_cases sweeps : Sweeps cfg s e j
      · -- a sweep that keeps the row did not match it
        obtain ⟨reap, r₀, row₀, stale⟩ := sweeps
        cases row.symm.trans row₀
        rw [step_db taken, row_commit _ row, reap] at row'
        simp only [rowAfter, Statement.onRow, stale, if_true, Option.some.injEq] at row'
        have status := congrArg Job.status row'
        rcases (Job.isStale_iff.1 stale).1 with claimed | running
        · rw [claimed] at status
          cases status
        · rw [running] at status
          cases status
      · by_cases marks : committed cfg s e = some (.markRunning j)
        · have marked : Marked cfg j ((s, e) :: t) := .inl ⟨marks, r, row⟩
          rw [step_db taken, row_commit _ row, marks] at row'
          simp only [rowAfter, Statement.onRow, if_true, Option.some.injEq] at row'
          exact touched marked (congrArg Job.heartbeatAt row'.symm)
        · exact same (marked_cons sweeps marks) rfl id id
  | claims commits pending =>
      refine same (marked_cons (not_sweeps commits (by simp)) (by simp [commits])) rfl
        (fun running => by cases running) fun _ => Job.Live.not_done (.inl pending)
  | marks commits _ _ _ => exact touched (.inl ⟨commits, r, row⟩) rfl
  | succeeds commits _ _ _ => exact .of_blank rfl (fun running => by cases running) (absurd rfl)
  | dies commits _ _ holds _ =>
      refine same (marked_cons (not_sweeps commits (by simp)) (by simp [commits])) rfl
        (fun running => by cases running) fun _ => holds.live.not_done
  | retries commits _ _ holds _ =>
      refine same (marked_cons (not_sweeps commits (by simp)) (by simp [commits])) rfl
        (fun running => by cases running) fun _ => holds.live.not_done
  | beats commits _ running =>
      refine touched ?_ rfl
      rw [marked_cons (not_sweeps commits (by simp)) (by simp [commits])]
      exact (dated.marked (by simp [running])).1 (dated.running running)
  | reclaims commits stale =>
      refine .of_blank rfl (fun running => by cases running) fun _ marked => ?_
      rcases marked with ⟨marks, -⟩ | ⟨-, steady⟩
      · cases commits.symm.trans marks
      · exact absurd ⟨commits, r, row, stale⟩ steady

theorem dated_of_run (run : Runs cfg t₀ .empty t s) :
    (∀ j r, s.db.jobs.row j = some r → Dated s.now (Marked cfg j t) r) ∧
      ∀ j, s.db.jobs.next ≤ j → ¬ Marked cfg j t := by
  refine run.invariant (P := fun t s =>
    (∀ j r, s.db.jobs.row j = some r → Dated s.now (Marked cfg j t) r) ∧
      ∀ j, s.db.jobs.next ≤ j → ¬ Marked cfg j t) ?_ ?_
  · refine ⟨fun j r row => ?_, fun _ _ => not_false⟩
    cases row
  rintro t s e s' run ⟨dated, blank⟩ taken
  have unmarked {j : JobId} (old : s.db.jobs.next ≤ j) : ¬ Marked cfg j ((s, e) :: t) := by
    rintro (⟨-, r, row⟩ | ⟨before, -⟩)
    · cases (s.db.jobs.fresh j old).symm.trans row
    · exact blank j old before
  refine ⟨fun j r' row' => ?_, fun j beyond => ?_⟩
  · cases row : s.db.jobs.row j with
    | some r =>
        have change := row_step run taken row
        rw [row'] at change
        exact dated_step (dated j r row) row taken row' change
    | none =>
        rw [step_db taken] at row'
        obtain ⟨body, -, rfl, rfl⟩ := row_new row row'
        exact .of_blank rfl (fun running => by cases running) fun _ => unmarked (Nat.le_refl _)
  · rw [step_db taken] at beyond
    exact unmarked (Nat.le_trans (next_commit _ _ _) beyond)

/-! ## After a crash -/

/-- The row of a crashed process's worker: claimed or running, and its owner's. -/
structure Orphan (s : Sys) (p : ProcId) (j : JobId) (r : Job) : Prop where
  crashed : Crashed s p
  row : s.db.jobs.row j = some r
  status : r.status = .claimed ∨ r.status = .running
  owner : ∃ w, r.workerId = some w ∧ w.proc = p

/-- A step leaves an orphan as it is, or sweeps it. -/
theorem orphan_step (run : Runs cfg t₀ db t s) (orphan : Orphan s p j r)
    (taken : step cfg s e = some s') : Orphan s' p j r ∨ Sweeps cfg s e j := by
  obtain ⟨crashed, row, status, w, own, mine⟩ := orphan
  have notPending : r.status ≠ .pending := by
    rcases status with status | status <;> simp [status]
  -- the owner is dead, so nobody writes an outcome
  have dead {w' : WorkerId} {job : Record} {st : Stage} {back : Prop}
      (writes : StatusWrite s w' job e) (holds : Holds st w' job back r) : False := by
    have same := holds.owner own
    subst same
    have at_ := writes.job
    rw [Sys.stages, crashed.workers w' mine] at at_
    cases at_
  have change := row_step run taken row
  generalize after : s'.db.jobs.row j = row' at change
  cases change with
  | keeps _ _ => exact .inl ⟨crashed_step crashed taken, after, status, w, own, mine⟩
  | claims _ pending => exact absurd pending notPending
  | marks _ writes _ holds => exact (dead writes holds).elim
  | succeeds _ writes _ holds => exact (dead writes holds).elim
  | dies _ writes _ holds _ => exact (dead writes holds).elim
  | retries _ writes _ holds _ => exact (dead writes holds).elim
  | beats commits own' _ =>
      cases own.symm.trans own'
      have updating := (heartbeat_updating taken commits).2
      rw [crashed.heartbeats w mine] at updating
      cases updating
  | reclaims commits stale => exact .inr ⟨commits, r, row, stale⟩
  | deletes _ pending => exact absurd pending notPending

theorem orphan_run (run : Runs cfg t₀ db t s) (orphan : Orphan s p j r)
    (rest : Run (step cfg) s u s') :
    Orphan s' p j r ∨ ∃ a e, (a, e) ∈ u ∧ Sweeps cfg a e j := by
  induction rest with
  | nil => exact .inl orphan
  | @snoc u a a' e before taken ih =>
      rcases ih with still | ⟨b, e', member, sweeps⟩
      · rcases orphan_step (run.append before) still taken with after | sweeps
        · exact .inl after
        · exact .inr ⟨a, e, List.mem_cons_self, sweeps⟩
      · exact .inr ⟨b, e', List.mem_cons_of_mem _ member, sweeps⟩

end

/-- **Which rows a crash strands.**  A process crashes and leaves a claimed or running row
of one of its workers.  In every continuation in which more than the threshold has
passed the row is stale, or a sweep has reset it already, exactly when the job was marked
running since its INSERT or its last reset by a sweep. -/
theorem crash_recovery_iff (cfg : Config) (t₀ : Time) {t : History Sys Event} {s s' : Sys}
    {p : ProcId} (run : Runs cfg t₀ .empty t s) (taken : step cfg s (.crash p) = some s')
    {j : JobId} {r : Job} (row : s'.db.jobs.row j = some r)
    (status : r.status = .claimed ∨ r.status = .running)
    (owner : ∃ w, r.workerId = some w ∧ w.proc = p) :
    (∀ u s'', Run (step cfg) s' u s'' → s.now + staleThreshold < s''.now →
        (∃ a e, (a, e) ∈ u ∧ Sweeps cfg a e j) ∨
          ∃ r'', s''.db.jobs.row j = some r'' ∧ r''.isStale s''.now = true) ↔
      Marked cfg j t := by
  have before : s.db.jobs.row j = some r := by
    rw [step_db taken] at row
    exact row
  have orphan : Orphan s' p j r := ⟨crashed_of_crash taken, row, status, owner⟩
  have dated := (dated_of_run run).1 j r before
  have notDone : r.status ≠ .done := Job.Live.not_done (.inr status)
  have now : s'.now = s.now := by
    cases step_taken taken with
    | crash _ => rfl
  constructor
  · intro recovers
    by_contra unmarked
    have blank : r.heartbeatAt = none := by
      by_contra set
      exact unmarked ((dated.marked notDone).1 set)
    -- let time pass: the row never becomes stale
    have waits : step cfg s' (.tick 31) = some { s' with now := s'.now + 31 } := by
      simp [step, control, committed, Db.commit]
    have late : s.now + staleThreshold < s'.now + 31 := by
      rw [now, staleThreshold]
      linarith
    rcases recovers _ _ (.single waits) late with ⟨a, e, member, sweeps⟩ | ⟨r'', row'', stale⟩
    · cases List.mem_singleton.1 member
      cases sweeps.1
    · cases row.symm.trans row''
      obtain ⟨-, h, set, -⟩ := Job.isStale_iff.1 stale
      cases blank.symm.trans set
  · intro marked u s'' rest late
    rcases orphan_run (run.snoc taken) orphan rest with still | swept
    · right
      obtain ⟨h, set⟩ := Option.ne_none_iff_exists'.1 ((dated.marked notDone).2 marked)
      have past := dated.past h set
      refine ⟨r, still.row, Job.isStale_iff.2 ⟨status, h, set, ?_⟩⟩
      linarith
    · exact .inl swept

/-- Job 1 was running when its process crashed: the reaper gets it. -/
theorem crash_recovery_running :
    ∃ t s s', Runs demo 0 .empty t s ∧ step demo s (.crash 0) = some s' ∧
      ∀ u s'', Run (step demo) s' u s'' → s.now + staleThreshold < s''.now →
        (∃ a e, (a, e) ∈ u ∧ Sweeps demo a e 1) ∨
          ∃ r, s''.db.jobs.row 1 = some r ∧ r.isStale s''.now = true := by
  obtain ⟨t, s, run, after⟩ := demo_run
    ([.createJob demoJob, .start 0, .worker ⟨0, 0⟩ (.connect true)] ++
      demoClaim ⟨0, 0⟩ [1] (some 1) ++ [.worker ⟨0, 0⟩ (.markRunning false)])
    (fun out => out.2.phase 0 = .up ∧ (out.2.db.jobs.row 1).any fun r =>
      r.status = .running ∧ r.workerId = some ⟨0, 0⟩ ∧ r.heartbeatAt ≠ none)
    (by decide +kernel)
  simp only [Option.any_eq_true, decide_eq_true_eq] at after
  obtain ⟨up, r, row, running, own, set⟩ := after
  have crashes : step demo s (.crash 0) = some (s.crashProc 0) := by
    simp [step, control, up, committed, Db.commit, Sys.crashProc]
  have marked : Marked demo 1 t := by
    have dated := (dated_of_run run).1 1 r row
    exact (dated.marked (by simp [running])).1 set
  have recovers := (crash_recovery_iff demo 0 run crashes (r := r) row (.inr running)
    ⟨⟨0, 0⟩, own, rfl⟩).2 marked
  exact ⟨t, s, _, run, crashes, recovers⟩

/-- Job 1 was claimed for the first time when its process crashed: 31 seconds later it is
not stale, and a sweep leaves it claimed by the dead worker. -/
theorem crash_strands_claimed :
    ∃ t s s' s'' r, Runs demo 0 .empty t s ∧ step demo s (.crash 0) = some s' ∧
      step demo s' (.tick 31) = some s'' ∧ s.now + staleThreshold < s''.now ∧
      s''.db.jobs.row 1 = some r ∧ r.status = .claimed ∧ r.workerId = some ⟨0, 0⟩ ∧
      r.isStale s''.now = false ∧ (s''.db.exec s''.now .reap).jobs.row 1 = some r := by
  obtain ⟨t, s, run, after⟩ := demo_run
    ([.createJob demoJob, .start 0, .worker ⟨0, 0⟩ (.connect true)] ++
      demoClaim ⟨0, 0⟩ [1] (some 1))
    (fun out => out.2.phase 0 = .up ∧ (out.2.db.jobs.row 1).any fun r =>
      r.status = .claimed ∧ r.workerId = some ⟨0, 0⟩ ∧ r.heartbeatAt = none)
    (by decide +kernel)
  simp only [Option.any_eq_true, decide_eq_true_eq] at after
  obtain ⟨up, r, row, claimed, own, blank⟩ := after
  have crashes : step demo s (.crash 0) = some (s.crashProc 0) := by
    simp [step, control, up, committed, Db.commit, Sys.crashProc]
  have fresh : r.isStale (s.now + 31) = false := by
    simp [Job.isStale, blank, Sql.lt]
  refine ⟨t, s, _, { s.crashProc 0 with now := s.now + 31 }, r, run, crashes, ?_, ?_, row, claimed,
    own, fresh, ?_⟩
  · simp [step, control, committed, Db.commit, Sys.crashProc]
  · simp only [staleThreshold]
    linarith
  · simp [Db.exec, Sys.crashProc, row, fresh]

end TaskQueue
