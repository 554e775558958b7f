/-
# TaskQueue.CleanExit -- what a worker leaves behind

A worker that returns from `run_worker` without an exception has written an outcome for
every job it claimed: the three exits without an outcome all raise, and what is raised
stays raised until the coroutine ends (`raised_step`).  A worker claims only between two
jobs, so it owns one row at a time.  After `shutdown_event` is set the head of the loop
is passed no more, and what is left of the body claims, marks and starts at most once.

* `settled_of_run` counts the outcome writes of a worker against its claims.
* `unlocked_of_run` and `once_of_run` are the invariants for locks and for the shutdown.
-/
import TaskQueue.Executions
import TaskQueue.LockLeak
import TaskQueue.ProofOfLife

namespace TaskQueue

set_option autoImplicit false

open Transition

/-- An exception is on its way out of `run_worker`, or has left it. -/
def Pc.raised : Pc → Bool
  | .unlocking _ raised | .closing raised _ | .exited raised => raised
  | .dead => true
  | _ => false

/-- The step commits `w`'s claim of `j`. -/
def claimsOf (cfg : Config) (w : WorkerId) (j : JobId) (s : Sys) (e : Event) : Bool :=
  match committed cfg s e with
  | some (.claim w' id _) => w' = w && id = j
  | _ => false

/-- The step commits an outcome write of `w` for `j`: done, retry or dead. -/
def writesOf (cfg : Config) (w : WorkerId) (j : JobId) (s : Sys) : Event → Bool
  | .worker w' act => w' = w && (decided cfg s (.worker w' act) j).isSome
  | _ => false

/-- `w` does `act`s of a kind with `shutdown_event` set. -/
def afterShutdown (w : WorkerId) (kind : WorkerAct → Bool) (s : Sys) : Event → Bool
  | .worker w' act => w' = w && s.shutdown w.proc && kind act
  | _ => false

section

variable {cfg : Config} {t₀ : Time} {db : Db} {t : History Sys Event} {s s' : Sys} {e : Event}
  {w : WorkerId} {j j' : JobId}

theorem claimsOf_iff : claimsOf cfg w j s e = true ↔ Claims cfg s e w j := by
  unfold claimsOf Claims
  split
  · rename_i w' id startedAt commits
    simp [commits]
  · rename_i other
    refine iff_of_false (by simp) ?_
    rintro ⟨startedAt, commits⟩
    exact other w j startedAt commits

/-! ## One row at a time -/

/-- A worker that raised has no job and looks for none. -/
theorem Pc.free_of_raised {pc : Pc} (raised : pc.raised = true) :
    pc.looking = false ∧ pc.stage = .idle := by
  cases pc <;> simp_all [Pc.raised, Pc.looking, Pc.stage]

/-- The worker's part of `raised_step`. -/
theorem raised_move {act : WorkerAct} {m : Move} (moved : s.runWorker cfg w act = some m)
    (raised : (s.pc w).raised = true) : m.pc.raised = true := by
  have advance := Sys.advance moved
  generalize s.pc w = pc at raised advance
  obtain ⟨blind, idle⟩ := Pc.free_of_raised raised
  cases advance with
  | rests looks _ _ _ _ => cases blind.symm.trans looks
  | carries payload running _ => cases idle.symm.trans running
  | abandons leaves => cases leaves <;> cases raised
  | unlocks id _ _ =>
      cases raised
      rfl
  | closes _ left raises =>
      cases raised
      rfl
  | _ => cases raised

/-- What is raised stays raised. -/
theorem raised_step (run : Runs cfg t₀ db t s) (taken : step cfg s e = some s')
    (raised : (s.pc w).raised = true) : (s'.pc w).raised = true := by
  cases worker_step taken w with
  | moves _ moved pc _ =>
      rw [pc]
      exact raised_move moved raised
  | stays _ _ pc _ =>
      rw [pc]
      exact raised
  | spawns absent _ _ =>
      rw [pc_of_absent run w absent] at raised
      cases raised
  | dies _ pc _ =>
      rw [pc]
      rfl

/-- Whoever leaves a job without an outcome does so by an exception. -/
theorem raised_of_leaves (taken : step cfg s e = some s') (leaves : Leaves s e w j) :
    (s'.pc w).raised = true := by
  obtain ⟨act, abandons⟩ := leaves_to taken leaves
  generalize s.pc w = pc, s'.pc w = pc' at abandons ⊢
  cases abandons <;> rfl

theorem raised_of_abandoned (run : Runs cfg t₀ db t s) :
    Abandoned cfg w j t → (s.pc w).raised = true := by
  refine run.invariant (P := fun t s => Abandoned cfg w j t → (s.pc w).raised = true)
    False.elim ?_
  intro t s e s' run ih taken abandoned
  rcases abandoned.2 with leaves | before
  · exact raised_of_leaves taken leaves
  · exact raised_step run taken (ih before)

/-- The owner of a row does not claim another. -/
theorem not_claims_of_owns (run : Runs cfg t₀ .empty t s) (taken : step cfg s e = some s')
    (owns : Owns s w j) : ¬ Claims cfg s e w j' := by
  intro claims
  obtain ⟨_, _, _, _, -, at_, -⟩ := claims_step taken claims
  rcases owned_of_run run w j owns with ⟨job, has, -⟩ | abandoned | crashed
  · rw [Sys.stages, at_] at has
    cases has
  · have raised := raised_of_abandoned run abandoned
    rw [at_] at raised
    cases raised
  · rw [(crashed_of_phase run crashed).workers w rfl] at at_
    cases at_

/-- **A worker owns at most one claimed or running row.** -/
theorem owns_unique (run : Runs cfg t₀ .empty t s) :
    ∀ j j', Owns s w j → Owns s w j' → j = j' := by
  refine run.invariant (P := fun _ s => ∀ j j', Owns s w j → Owns s w j' → j = j') ?_ ?_
  · rintro j j' ⟨r, row, -⟩
    cases row
  intro t s e s' run ih taken j j' owns owns'
  rcases owns_step run taken owns with claims | ⟨before, -⟩ <;>
    rcases owns_step run taken owns' with claims' | ⟨before', -⟩
  · obtain ⟨startedAt, commits⟩ := claims
    obtain ⟨startedAt', commits'⟩ := claims'
    cases commits.symm.trans commits'
    rfl
  · exact absurd claims (not_claims_of_owns run taken before')
  · exact absurd claims' (not_claims_of_owns run taken before)
  · exact ih j j' before before'

/-! ## Outcome writes against claims -/

/-- An outcome write comes from the worker at the job. -/
theorem decided_author (taken : step cfg s e = some s') {o : RetryBudget.Outcome}
    (writes : decided cfg s e j = some o) : ∃ w act, e = .worker w act ∧ Executes s w j := by
  obtain ⟨st, commits, decides⟩ := Option.bind_eq_some_iff.1 (decided_eq_some.1 writes)
  have byWorker : st.byWorker = true := by
    cases st <;> first | rfl | cases decides
  cases sends_of_committed taken commits byWorker with
  | done at_ =>
      cases decides
      exact ⟨_, _, rfl, _, (StatusWrite.done at_).job, rfl⟩
  | failed at_ =>
      rw [decides_handleFailure] at decides
      cases decides
      exact ⟨_, _, rfl, _, (StatusWrite.failed at_).job, rfl⟩
  | claim _ _ _ _ => cases decides
  | running _ => cases decides

theorem executes_unique (run : Runs cfg t₀ db t s) {w' : WorkerId} (executes : Executes s w j)
    (executes' : Executes s w' j) : w = w' := by
  obtain ⟨job, at_, rfl⟩ := executes
  obtain ⟨job', at', same⟩ := executes'
  by_contra other
  exact job_ne run at_ at' (Ne.symm other) same.symm

theorem writesOf_iff (run : Runs cfg t₀ db t s) (taken : step cfg s e = some s') :
    writesOf cfg w j s e = true ↔ Executes s w j ∧ ∃ o, decided cfg s e j = some o := by
  constructor
  · intro hit
    unfold writesOf at hit
    split at hit
    · rename_i w' act
      simp only [Bool.and_eq_true, decide_eq_true_eq, Option.isSome_iff_exists] at hit
      obtain ⟨rfl, o, writes⟩ := hit
      obtain ⟨w₀, act₀, same, executes⟩ := decided_author taken writes
      cases same
      exact ⟨executes, o, writes⟩
    · cases hit
  · rintro ⟨executes, o, writes⟩
    obtain ⟨w₀, act, rfl, executes₀⟩ := decided_author taken writes
    cases executes_unique run executes executes₀
    simp [writesOf, writes]

/-- The account of `w` at job `j`: a claim is open while it executes the job, or once it
has raised; at any other time every claim has its outcome write. -/
structure Settled (cfg : Config) (w : WorkerId) (j : JobId) (t : History Sys Event) (s : Sys) :
    Prop where
  atMost : tally (writesOf cfg w j) t ≤ tally (claimsOf cfg w j) t
  atLeast : tally (claimsOf cfg w j) t ≤ tally (writesOf cfg w j) t + 1
  opened : Executes s w j → tally (claimsOf cfg w j) t = tally (writesOf cfg w j) t + 1
  closed : ¬ Executes s w j → (s.pc w).raised = false →
    tally (claimsOf cfg w j) t = tally (writesOf cfg w j) t

theorem Settled.of_claim (run : Runs cfg t₀ db t s) (taken : step cfg s e = some s')
    (settled : Settled cfg w j t s) (claims : Claims cfg s e w j) :
    Settled cfg w j ((s, e) :: t) s' := by
  have executes := executes_of_claims taken claims
  have hit := tally_hit (t := t) (claimsOf_iff.2 claims)
  obtain ⟨_, _, _, _, -, at_, -⟩ := claims_step taken claims
  -- the worker was looking for a job
  have free : ¬ Executes s w j := by
    rintro ⟨job, has, -⟩
    rw [Sys.stages, at_] at has
    cases has
  have quiet : ¬ writesOf cfg w j s e = true := fun hit => free ((writesOf_iff run taken).1 hit).1
  have same := tally_quiet (t := t) quiet
  have before := settled.closed free (by rw [at_]; rfl)
  exact ⟨by omega, by omega, fun _ => by omega, fun other => absurd executes other⟩

theorem Settled.of_write (run : Runs cfg t₀ db t s) (taken : step cfg s e = some s')
    (settled : Settled cfg w j t s) (hit : writesOf cfg w j s e = true) :
    Settled cfg w j ((s, e) :: t) s' := by
  obtain ⟨executes, o, writes⟩ := (writesOf_iff run taken).1 hit
  have ended := not_executes_of_decided run taken writes w
  have more := tally_hit (t := t) hit
  have quiet : ¬ claimsOf cfg w j s e = true := by
    intro claims
    exact ended (executes_of_claims taken (claimsOf_iff.1 claims))
  have same := tally_quiet (t := t) quiet
  have before := settled.opened executes
  exact ⟨by omega, by omega, fun still => absurd still ended, fun _ _ => by omega⟩

/-- **Outcome writes answer claims, one for one.** -/
theorem settled_of_run (run : Runs cfg t₀ db t s) : Settled cfg w j t s := by
  refine run.invariant (P := Settled cfg w j) ⟨Nat.le_refl _, Nat.le_succ _, ?_, fun _ _ => rfl⟩ ?_
  · rintro ⟨job, at_, -⟩
    cases at_
  intro t s e s' run settled taken
  by_cases claims : Claims cfg s e w j
  · exact settled.of_claim run taken claims
  by_cases hit : writesOf cfg w j s e = true
  · exact settled.of_write run taken hit
  have noClaim := tally_quiet (t := t) fun hit => claims (claimsOf_iff.1 hit)
  have noWrite := tally_quiet (t := t) hit
  obtain ⟨atMost, atLeast, opened, closed⟩ := settled
  rw [← noClaim, ← noWrite] at atMost atLeast opened closed
  refine ⟨atMost, atLeast, fun executes => ?_, fun ended calm => ?_⟩
  · exact opened ((executes_step run taken executes).resolve_right claims)
  -- whoever is no longer at the job, without a write, has raised
  refine closed (fun executes => ?_) ?_
  · rcases executes_next run executes taken with after | writes | leaves | rfl
    · exact ended after
    · exact hit ((writesOf_iff run taken).2 ⟨executes, writes⟩)
    · cases calm.symm.trans (raised_of_leaves taken leaves)
    · have dead := (crashed_of_crash taken).workers w rfl
      rw [dead] at calm
      cases calm
  · by_contra raised
    rw [Bool.not_eq_false] at raised
    cases calm.symm.trans (raised_step run taken raised)

/-! ## The session -/

/-- `run_worker` returns by closing its sessions. -/
theorem exits_by_close {act : WorkerAct} {m : Move} (moved : s.runWorker cfg w act = some m)
    (ended : m.pc = .exited false) : m.locks = s.locks.closeWhere (· == w) := by
  have advance := Sys.advance moved
  cases looks : (s.pc w).looking with
  | true =>
      have looking := runWorker_looks moved looks
      rw [ended] at looking
      generalize s.pc w = pc at looking
      cases looking
  | false =>
      generalize s.pc w = pc at looks advance
      cases advance with
      | rests looking _ _ _ _ => cases looks.symm.trans looking
      | carries payload _ running' =>
          simp only at ended
          rw [ended] at running'
          cases running'
      | abandons leaves => cases leaves <;> cases ended
      | unlocks id raised raises => cases raised <;> cases ended
      | closes raised left raises =>
          simp only [Pc.exited.injEq, Bool.or_eq_false_iff] at ended
          simp [ended.2]
      | _ => cases ended

/-- A worker that returned holds no lock. -/
theorem unlocked_of_run (run : Runs cfg t₀ db t s) :
    s.pc w = .exited false → ∀ i, s.locks.count w i = 0 := by
  refine run.invariant (P := fun _ s => s.pc w = .exited false → ∀ i, s.locks.count w i = 0)
    (fun ended => by cases ended) ?_
  intro t s e s' run ih taken ended i
  cases worker_step taken w with
  | moves _ moved pc locks =>
      rw [locks, exits_by_close moved (pc.symm.trans ended)]
      simp [SessionLock.Locks.count_closeWhere]
  | stays _ _ pc locks =>
      rw [locks]
      exact ih (pc.symm.trans ended) i
  | spawns _ pc _ => cases pc.symm.trans ended
  | dies _ _ locks => exact locks i

/-! ## After the shutdown -/

/-- What is left of the loop body: claim, `'running'` UPDATE, start of the handler. -/
def Pc.ahead : Pc → ℕ
  | .begun _ | .claiming _ _ => 3
  | .marking _ => 2
  | .starting _ => 1
  | _ => 0

/-- The part of an execution that an act begins: 3 is the claim of a job, 2 its `'running'`
UPDATE, 1 its handler. -/
def WorkerAct.level : WorkerAct → ℕ
  | .claim plan => if plan.returned.isSome then 3 else 0
  | .markRunning false => 2
  | .startHandler => 1
  | _ => 0

/-- An act that carries an execution on finds it at its level. -/
theorem ahead_of_level {act : WorkerAct} {m : Move} (moved : s.runWorker cfg w act = some m)
    (carries : 0 < act.level) : (s.pc w).ahead = act.level := by
  have enabled : (step cfg s (.worker w act)).isSome = true := by
    rw [step_of_moved moved]
    rfl
  cases act with
  | claim plan =>
      cases at_ : s.pc w with
      | claiming _ _ =>
          simp only [WorkerAct.level] at carries ⊢
          split at carries
          · rename_i returned
            rw [if_pos returned]
            rfl
          · cases carries
      | _ => simp [Sys.runWorker, runWorker, executeJob, at_] at moved
  | markRunning raises =>
      cases raises with
      | true => cases carries
      | false =>
          obtain ⟨job, at_⟩ := marking_of_enabled enabled
          rw [at_]
          rfl
  | startHandler =>
      obtain ⟨job, at_⟩ := starting_of_enabled enabled
      rw [at_]
      rfl
  | _ => cases carries

/-- With `shutdown_event` set a worker goes down the loop body only. -/
theorem ahead_move {act : WorkerAct} {m : Move} (moved : s.runWorker cfg w act = some m)
    (set : s.shutdown w.proc = true) :
    m.pc.ahead ≤ (s.pc w).ahead ∧ (0 < act.level → m.pc.ahead < act.level) := by
  cases looks : (s.pc w).looking with
  | true =>
      have looking := runWorker_looks moved looks
      rw [set] at looking
      generalize s.pc w = pc, m.pc = pc' at looking ⊢
      cases looking with
      | enters going => cases going
      | findsNone snapshot startedAt plan => exact ⟨Nat.zero_le _, id⟩
      | claims snapshot startedAt plan job =>
          refine ⟨Nat.le_succ _, fun up => ?_⟩
          simp only [WorkerAct.level] at up ⊢
          split at up
          · rename_i returned
            simp [returned, Pc.ahead]
          · cases up
      | raises snapshot startedAt scanned => exact ⟨Nat.zero_le _, id⟩
      | _ => exact ⟨Nat.le_refl _, fun up => by cases up⟩
  | false =>
      have advance := Sys.advance moved
      generalize s.pc w = pc at looks advance ⊢
      cases advance with
      | rests looking _ _ _ _ => cases looks.symm.trans looking
      | findsNone _ _ => cases looks
      | claimRaises _ => cases looks
      | claims _ _ _ => cases looks
      | marks job => exact ⟨Nat.le_succ _, fun _ => Nat.lt_succ_self _⟩
      | @carries _ pc' _ _ payload _ running' =>
          have past : pc'.ahead = 0 := by
            cases at_ : pc' with
            | starting job => cases starting_of_move moved at_
            | _ =>
                rw [at_] at running'
                first | rfl | cases running'
          simp only [past]
          exact ⟨Nat.zero_le _, id⟩
      | abandons leaves => cases leaves <;> exact ⟨Nat.zero_le _, id⟩
      | unlocks id' raised raises => cases raised <;> exact ⟨Nat.zero_le _, id⟩
      | _ => exact ⟨Nat.zero_le _, id⟩

/-- How often `w` did acts of a level with `shutdown_event` set: at most once, and not yet
while that level is still ahead. -/
def Once (w : WorkerId) (n : ℕ) (t : History Sys Event) (s : Sys) : Prop :=
  tally (afterShutdown w fun act => act.level = n) t ≤ 1 ∧
    (s.shutdown w.proc = false ∨ n ≤ (s.pc w).ahead →
      tally (afterShutdown w fun act => act.level = n) t = 0)

theorem ahead_step (taken : step cfg s e = some s') (set : s.shutdown w.proc = true) :
    (s'.pc w).ahead ≤ (s.pc w).ahead := by
  cases worker_step taken w with
  | moves _ moved pc _ =>
      rw [pc]
      exact (ahead_move moved set).1
  | stays _ _ pc _ => exact Nat.le_of_eq (congrArg Pc.ahead pc)
  | spawns _ pc _ =>
      rw [pc]
      exact Nat.zero_le _
  | dies _ pc _ =>
      rw [pc]
      exact Nat.zero_le _

/-- **After the shutdown every stage of an execution is entered at most once.** -/
theorem once_of_run (run : Runs cfg t₀ db t s) {n : ℕ} (up : 0 < n) : Once w n t s := by
  refine run.invariant (P := Once w n) ⟨Nat.zero_le _, fun _ => rfl⟩ ?_
  rintro t s e s' run ⟨atMost, yet⟩ taken
  by_cases hit : afterShutdown w (fun act => act.level = n) s e = true
  · have more := tally_hit (t := t) hit
    unfold afterShutdown at hit
    split at hit
    · rename_i w' act
      simp only [Bool.and_eq_true, decide_eq_true_eq] at hit
      obtain ⟨⟨rfl, set⟩, level⟩ := hit
      have set' := shutdown_step taken set
      cases step_taken taken with
      | worker moved =>
          have here := ahead_of_level moved (level ▸ up)
          have past := (ahead_move moved set).2 (level ▸ up)
          have before := yet (.inr (by omega))
          refine ⟨by omega, ?_⟩
          rintro (unset | still)
          · cases unset.symm.trans set'
          · simp only [Sys.moveWorker, Function.update_self] at still
            omega
    · cases hit
  · have same := tally_quiet (t := t) hit
    refine ⟨by omega, fun early => ?_⟩
    rw [same]
    cases set : s.shutdown w.proc with
    | false => exact yet (.inl set)
    | true =>
        rcases early with unset | still
        · cases unset.symm.trans (shutdown_step taken set)
        · exact yet (.inr (Nat.le_trans still (ahead_step taken set)))

end

/-- What `w` leaves behind when its `run_worker` returns without an exception: no claimed
or running row of its own, no lock, an outcome write for every claim, and after
`shutdown_event` was set at most one claim, one `'running'` UPDATE, one handler start. -/
structure LeavesClean (cfg : Config) (w : WorkerId) (t : History Sys Event) (s : Sys) : Prop where
  rows : ∀ j, ¬ Owns s w j
  locks : ∀ j, s.locks.count w j = 0
  outcomes : ∀ j, tally (claimsOf cfg w j) t = tally (writesOf cfg w j) t
  claims : tally (afterShutdown w fun act => act.level = 3) t ≤ 1
  marks : tally (afterShutdown w fun act => act.level = 2) t ≤ 1
  starts : tally (afterShutdown w fun act => act.level = 1) t ≤ 1

/-- **Clean worker exit.**  In every run from empty tables a worker id is that of at most
one claimed or running row; the outcome writes of a worker for a job answer its claims of
it one for one, with at most the last claim open; and a worker whose `run_worker` returned
without an exception leaves clean. -/
theorem clean_exit (cfg : Config) (t₀ : Time) {t : History Sys Event} {s : Sys}
    (run : Runs cfg t₀ .empty t s) (w : WorkerId) :
    (∀ j j', Owns s w j → Owns s w j' → j = j') ∧
      (∀ j, tally (writesOf cfg w j) t ≤ tally (claimsOf cfg w j) t ∧
        tally (claimsOf cfg w j) t ≤ tally (writesOf cfg w j) t + 1) ∧
      (s.pc w = .exited false → LeavesClean cfg w t s) := by
  refine ⟨owns_unique run, fun j => ?_, fun ended => ?_⟩
  · have settled := settled_of_run (w := w) (j := j) run
    exact ⟨settled.atMost, settled.atLeast⟩
  have free (j : JobId) : ¬ Executes s w j := by
    rintro ⟨job, at_, -⟩
    rw [Sys.stages, ended] at at_
    cases at_
  have calm : (s.pc w).raised = false := by
    rw [ended]
    rfl
  refine ⟨fun j owns => ?_, unlocked_of_run run ended, fun j => ?_, ?_, ?_, ?_⟩
  · rcases owned_of_run run w j owns with executes | abandoned | crashed
    · exact free j executes
    · cases calm.symm.trans (raised_of_abandoned run abandoned)
    · rw [(crashed_of_phase run crashed).workers w rfl] at ended
      cases ended
  · exact (settled_of_run run).closed (free j) calm
  · exact (once_of_run run (by decide)).1
  · exact (once_of_run run (by decide)).1
  · exact (once_of_run run (by decide)).1

/-- SIGTERM arrives while the handler of job 1 runs; its worker stores the result and
returns, and another worker claims job 2. -/
theorem clean_exit_drained :
    ∃ t s, Runs demo 0 .empty t s ∧ s.pc ⟨0, 0⟩ = .exited false ∧
      LeavesClean demo ⟨0, 0⟩ t s ∧ Owns s ⟨1, 0⟩ 2 := by
  obtain ⟨t, s, run, after⟩ := demo_run
    ([.createJob demoJob, .createJob demoJob, .start 0, .start 1,
        .worker ⟨0, 0⟩ (.connect true), .worker ⟨1, 0⟩ (.connect true)] ++
      demoClaim ⟨0, 0⟩ [1] (some 1) ++
      [.worker ⟨0, 0⟩ (.markRunning false), .worker ⟨0, 0⟩ .startHandler, .shutdown 0,
        .worker ⟨0, 0⟩ (.handlerEnds (.obj []) (.returns (.storable none))),
        .worker ⟨0, 0⟩ (.storeDone none), .worker ⟨0, 0⟩ (.unlock false),
        .worker ⟨0, 0⟩ .enterLoop, .worker ⟨0, 0⟩ (.close false)] ++
      demoClaim ⟨1, 0⟩ [2] (some 2))
    (fun out => (out.2.pc ⟨0, 0⟩).exited? = some false ∧
      (out.2.db.jobs.row 2).any fun r => r.workerId = some ⟨1, 0⟩ ∧ r.status = .claimed)
    (by decide +kernel)
  simp only [decide_eq_true_eq, Option.any_eq_true] at after
  obtain ⟨ended, r, row, own, status⟩ := after
  have exited := Pc.exited_of_some ended
  refine ⟨t, s, run, exited, (clean_exit demo 0 run ⟨0, 0⟩).2.2 exited, ?_⟩
  exact ⟨r, row, own, .inl status⟩

end TaskQueue
