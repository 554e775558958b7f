/-
# TaskQueue.LockLeak -- the locks that a claim session holds

`pg_try_advisory_lock` is called for every row on which the WHERE clause of the claim
is evaluated, `pg_advisory_unlock` once for every job executed.  The two balance when
each claim obtains exactly the lock of the row it returns (`ClaimPlan.ScansOne`) and no
unlock raises; every other obtained lock stays with the session.

* `Clean` is the lock count that each program point ought to have, `Tidy` the part of it
  at the return of a claim and at the head of the loop.
-/
import Mathlib.Data.List.Nodup
import TaskQueue.System

namespace TaskQueue

set_option autoImplicit false

open Transition

/-- At most one scanned row has a lock to be had; FOR UPDATE keeps that row, and does not
evaluate the clause on it again. -/
def ClaimPlan.ScansOne (plan : ClaimPlan) (locks : LockTable) (w : WorkerId) (startedAt : Time)
    (latest : SerialTable Job) : Prop :=
  ∀ i ∈ plan.scanned, locks.Obtainable w i →
    plan.Survives locks w startedAt latest i ∧ plan.rechecked = false ∧
      ∀ k ∈ plan.scanned, locks.Obtainable w k → k = i

instance (plan : ClaimPlan) (locks : LockTable) (w : WorkerId) (startedAt : Time)
    (latest : SerialTable Job) : Decidable (plan.ScansOne locks w startedAt latest) :=
  inferInstanceAs (Decidable (∀ i ∈ plan.scanned, _))

/-- A claim scans one row at most that it can lock, and an unlock after an execution that
returns does not raise. -/
def locksOneAt (s : Sys) (w : WorkerId) : Pc → WorkerAct → Bool
  | .claiming _ startedAt, .claim plan => plan.ScansOne s.locks w startedAt s.db.jobs
  | .unlocking _ false, .unlock true => false
  | _, _ => true

def locksOne (s : Sys) : Event → Bool
  | .worker w act => locksOneAt s w (s.pc w) act
  | _ => true

/-- How often a session that has claimed `id` holds each lock. -/
def only (id : JobId) (i : JobId) : ℕ := if i = id then 1 else 0

/-- The locks of a worker at each program point, when none has leaked. -/
def Clean (count : JobId → ℕ) : Pc → Prop
  | .absent | .connecting | .loopHead | .begun _ | .claiming _ _ | .waiting => ∀ i, count i = 0
  | .marking job | .starting job | .handling job | .storing job _ | .failing job _ =>
      ∀ i, count i = only job.id i
  | .unlocking id _ => ∀ i, count i = only id i
  | .closing _ _ | .exited _ | .dead => True

/-- After a claim that returned a row the session holds its lock once and no other; at the
head of the loop, and waiting to be there, it holds none. -/
structure Tidy (count : JobId → ℕ) (pc : Pc) : Prop where
  returned : ∀ job, pc = .marking job → ∀ i, count i = only job.id i
  head : pc = .loopHead ∨ pc = .waiting → ∀ i, count i = 0

theorem Clean.tidy {count : JobId → ℕ} {pc : Pc} (clean : Clean count pc) : Tidy count pc := by
  constructor
  · rintro job rfl
    exact clean
  · rintro (rfl | rfl)
    · exact clean
    · exact clean

theorem Clean.of_looking {count : JobId → ℕ} {pc : Pc} (looks : pc.looking = true) :
    Clean count pc ↔ ∀ i, count i = 0 := by
  cases pc <;> first | exact Iff.rfl | cases looks

theorem Clean.of_free {count : JobId → ℕ} {pc : Pc} (free : pc.held? = none)
    (none_ : ∀ i, count i = 0) : Clean count pc := by
  cases pc <;> first | exact none_ | trivial

theorem Clean.of_running {count : JobId → ℕ} {pc : Pc} {job : Record}
    (running : pc.stage = .running job) : Clean count pc ↔ ∀ i, count i = only job.id i := by
  cases pc <;> cases running <;> exact Iff.rfl

section

variable {cfg : Config} {t₀ : Time} {db : Db} {t : History Sys Event} {s s' : Sys} {e : Event}
  {jobs snapshot : SerialTable Job} {locks : LockTable} {w : WorkerId} {plan : ClaimPlan}
  {startedAt : Time}

/-! ## The locks of one claim -/

/-- How often the claim obtains the lock of `i`. -/
def ClaimPlan.obtained (plan : ClaimPlan) (locks : LockTable) (w : WorkerId) (i : JobId) : ℕ :=
  if locks.Obtainable w i then plan.lockCalls.count i else 0

theorem obtained_eq_zero {i : JobId} (missed : i ∉ plan.scanned ∨ ¬ locks.Obtainable w i)
    (admissible : plan.Admissible locks w startedAt snapshot jobs) :
    plan.obtained locks w i = 0 := by
  unfold ClaimPlan.obtained
  split
  · rename_i free
    rcases missed with notScanned | held
    · exact List.count_eq_zero.2 fun called =>
        notScanned (ClaimPlan.mem_scanned_of_mem_lockCalls admissible called)
    · exact absurd free held
  · rfl

/-- A claim that scans one lockable row obtains exactly the lock of the row it returns. -/
theorem obtained_of_scansOne (admissible : plan.Admissible locks w startedAt snapshot jobs)
    (one : plan.ScansOne locks w startedAt jobs) (i : JobId) :
    plan.obtained locks w i = if plan.returned = some i then 1 else 0 := by
  have ⟨nodup, eligible, survives, ahead⟩ := admissible
  cases answer : plan.returned with
  | none =>
      simp only [reduceCtorEq, if_false]
      refine obtained_eq_zero ?_ admissible
      by_contra both
      obtain ⟨scanned, free⟩ : i ∈ plan.scanned ∧ locks.Obtainable w i := by
        simpa [not_or] using both
      obtain ⟨r, row, -⟩ := eligible_iff.1 (eligible i scanned)
      have key : i ∈ snapshot.keys := SerialTable.mem_keys.2 ⟨r, row⟩
      exact (ahead i key (eligible i scanned) (by rw [answer]; rfl)).2 (one i scanned free).1
  | some x =>
      obtain ⟨scanned, free, -⟩ := survives x (by simp [answer])
      obtain ⟨-, once, unique⟩ := one x scanned free
      by_cases same : i = x
      · subst same
        simp [ClaimPlan.obtained, ClaimPlan.lockCalls, free, once,
          List.count_eq_one_of_mem nodup scanned]
      · rw [if_neg fun h => same (Option.some.inj h).symm]
        refine obtained_eq_zero ?_ admissible
        by_contra both
        obtain ⟨scanned', free'⟩ : i ∈ plan.scanned ∧ locks.Obtainable w i := by
          simpa [not_or] using both
        exact same (unique i scanned' free')

theorem scansOne_of_obtained (admissible : plan.Admissible locks w startedAt snapshot jobs)
    (balance : ∀ i, plan.obtained locks w i = if plan.returned = some i then 1 else 0) :
    plan.ScansOne locks w startedAt jobs := by
  -- every lock obtained is the answer's
  have answer : ∀ i ∈ plan.scanned, locks.Obtainable w i → plan.returned = some i := by
    intro i scanned free
    by_contra other
    have none_ := balance i
    rw [if_neg other, ClaimPlan.obtained, if_pos free, List.count_eq_zero] at none_
    exact none_ (List.mem_append_left _ scanned)
  intro i scanned free
  have returned := answer i scanned free
  refine ⟨admissible.2.2.1 i (by simp [returned]), ?_, fun k scanned' free' => ?_⟩
  · by_contra again
    have twice := balance i
    rw [Bool.not_eq_false] at again
    simp only [ClaimPlan.obtained, ClaimPlan.lockCalls, free, again, returned, if_true,
      Option.toList_some, List.count_append, List.count_singleton_self] at twice
    have once := List.count_pos_iff.2 scanned
    omega
  · exact (Option.some.inj (returned.symm.trans (answer k scanned' free'))).symm

/-! ## The locks over a step -/

/-- What the claim leaves of a session that held nothing. -/
theorem count_claim (none_ : ∀ i, locks.count w i = 0) (i : JobId) :
    (locks.lockAll w plan.lockCalls).count w i = plan.obtained locks w i := by
  simp [SessionLock.Locks.count_lockAll, none_, ClaimPlan.obtained]

/-- A clean worker stays clean when its claim scans one lockable row and its unlock does
not raise. -/
theorem clean_move {act : WorkerAct} {m : Move} (moved : s.runWorker cfg w act = some m)
    (clean : Clean (s.locks.count w) (s.pc w)) (one : locksOneAt s w (s.pc w) act = true) :
    Clean (m.locks.count w) m.pc := by
  have advance := Sys.advance moved
  generalize s.pc w = pc at advance clean one
  cases advance with
  | rests looks _ free' _ _ => exact .of_free free' ((Clean.of_looking looks).1 clean)
  | findsNone admissible nothing =>
      simp only [locksOneAt, decide_eq_true_eq] at one
      intro i
      rw [count_claim clean, obtained_of_scansOne admissible one, nothing]
      rfl
  | claimRaises _ => trivial
  | claims admissible returned _ =>
      simp only [locksOneAt, decide_eq_true_eq] at one
      intro i
      rw [count_claim clean, obtained_of_scansOne admissible one, returned]
      simp [only, Record.ofRow, eq_comm]
  | marks job => exact clean
  | carries payload running running' =>
      exact (Clean.of_running running').2 ((Clean.of_running running).1 clean)
  | succeeds job _ => exact clean
  | fails job _ => exact clean
  | abandons leaves => cases leaves <;> first | exact clean | trivial
  | unlocks id raised raises =>
      cases raised with
      | true => trivial
      | false =>
          cases raises with
          | true => cases one
          | false =>
              intro i
              have held : s.locks.count w i = only id i := clean i
              by_cases same : i = id
              · subst same
                simp [SessionLock.Locks.count_unlock, held, only]
              · simp [SessionLock.Locks.count_unlock, held, only, same]
  | closes _ _ _ => trivial

/-- A clean worker that is tidy after its step scanned one lockable row, and its unlock
did not raise. -/
theorem locksOne_of_tidy {act : WorkerAct} {m : Move} (moved : s.runWorker cfg w act = some m)
    (clean : Clean (s.locks.count w) (s.pc w)) (tidy : Tidy (m.locks.count w) m.pc) :
    locksOneAt s w (s.pc w) act = true := by
  have advance := Sys.advance moved
  generalize s.pc w = pc at advance clean
  cases advance with
  | rests looks noClaim _ _ _ =>
      unfold locksOneAt
      split
      · exact absurd rfl (noClaim _)
      · cases looks
      · rfl
  | findsNone admissible nothing =>
      simp only [locksOneAt, decide_eq_true_eq]
      refine scansOne_of_obtained admissible fun i => ?_
      have held := tidy.head (.inr rfl) i
      rw [count_claim clean] at held
      rw [held, nothing]
      rfl
  | claimRaises _ => rfl
  | claims admissible returned _ =>
      simp only [locksOneAt, decide_eq_true_eq]
      refine scansOne_of_obtained admissible fun i => ?_
      have held := tidy.returned _ rfl i
      rw [count_claim clean] at held
      rw [held, returned]
      simp [only, Record.ofRow, eq_comm]
  | marks _ => rfl
  | carries payload running running' =>
      unfold locksOneAt
      split
      · cases running
      · cases running
      · rfl
  | succeeds _ _ => rfl
  | fails _ _ => rfl
  | abandons leaves => cases leaves <;> rfl
  | unlocks id raised raises =>
      cases raises with
      | false => cases raised <;> rfl
      | true =>
          cases raised with
          | true => rfl
          | false =>
              have held : s.locks.count w id = only id id := clean id
              have none_ : s.locks.count w id = 0 := tidy.head (.inl rfl) id
              rw [none_] at held
              simp [only] at held
  | closes _ _ _ => rfl

/-- Every worker's locks are clean. -/
def AllClean (s : Sys) : Prop := ∀ w, Clean (s.locks.count w) (s.pc w)

/-- Every worker's locks are as the return of a claim and the head of the loop want them. -/
def AllTidy (s : Sys) : Prop := ∀ w, Tidy (s.locks.count w) (s.pc w)

theorem allClean_step (run : Runs cfg t₀ db t s) (clean : AllClean s) (one : locksOne s e = true)
    (taken : step cfg s e = some s') : AllClean s' := by
  intro w
  have before := clean w
  cases worker_step taken w with
  | moves now moved pc locks =>
      subst now
      rw [pc, locks]
      exact clean_move moved before one
  | stays _ _ pc locks =>
      rw [pc, locks]
      exact before
  | spawns absent pc locks =>
      rw [pc_of_absent run w absent] at before
      rw [pc, locks]
      exact before
  | dies _ pc _ =>
      rw [pc]
      exact trivial

theorem allClean_boot : AllClean (Sys.boot t₀ db) := fun _ _ => rfl

theorem allClean_of_run (run : Runs cfg t₀ db t s)
    (one : EachStep (fun _ s e => locksOne s e = true) t) : AllClean s := by
  refine (run.throughout (P := fun _ s => AllClean s) allClean_boot ?_ one).here
  exact fun t s e s' run clean one taken => allClean_step run clean one taken

theorem locksOne_of_allTidy (clean : AllClean s) (taken : step cfg s e = some s')
    (tidy : AllTidy s') : locksOne s e = true := by
  cases step_taken taken with
  | @worker w act m moved =>
      have mine := tidy w
      simp only [Sys.moveWorker, Function.update_self] at mine
      exact locksOne_of_tidy moved (clean w) mine
  | _ => rfl

end

/-- **When advisory locks do not leak.**  In every state of a run a session holds the lock
of the row its claim just returned, once and no other, and none at the head of its loop,
exactly when in every step of the run a claim scans one row at most that it can lock,
keeps that row without evaluating the clause on it again, and no unlock after an
execution that returns raises. -/
theorem no_leak_iff (cfg : Config) (t₀ : Time) (db : Db) {t : History Sys Event} {s : Sys}
    (run : Runs cfg t₀ db t s) :
    Throughout (fun _ s => AllTidy s) t s ↔ EachStep (fun _ s e => locksOne s e = true) t := by
  constructor
  · refine fun tidy => run.eachStep (P := fun _ s => AllTidy s) ?_ tidy
    intro t s e s' run _ one after taken
    exact locksOne_of_allTidy (allClean_of_run run one) taken after
  · intro one
    refine (run.throughout (P := fun _ s => AllClean s) allClean_boot ?_ one).mono ?_
    · exact fun t s e s' run clean one taken => allClean_step run clean one taken
    · exact fun _ s clean w => (clean w).tidy

/-- A worker executes a job and looks again without a leak. -/
theorem no_leak_one_job :
    ∃ t s, Runs demo 0 .empty t s ∧ Throughout (fun _ s => AllTidy s) t s ∧
      s.db.jobs.row 1 ≠ none := by
  obtain ⟨t, s, run, after⟩ := demo_run
    ([.createJob demoJob, .start 0, .worker ⟨0, 0⟩ (.connect true)] ++
      demoClaim ⟨0, 0⟩ [1] (some 1) ++ demoDone ⟨0, 0⟩ ++ demoClaim ⟨0, 0⟩ [] none)
    (fun out => EachStep (fun _ s e => locksOne s e = true) out.1 ∧
      (out.2.db.jobs.row 1).isSome)
    (by decide +kernel)
  simp only [decide_eq_true_eq] at after
  exact ⟨t, s, run, (no_leak_iff demo 0 .empty run).2 after.1, Option.isSome_iff_ne_none.1 after.2⟩

/-- Two jobs are due and the claim scans both: when it has returned job 1, and when job 1
is done, the session holds the lock of job 2. -/
theorem leak_after_scan :
    ∃ t s, Runs demo 0 .empty t s ∧
      (∃ a e job, (a, e) ∈ t ∧ a.pc ⟨0, 0⟩ = .marking job ∧ job.id = 1 ∧
        a.locks.count ⟨0, 0⟩ 2 = 1) ∧
      s.pc ⟨0, 0⟩ = .loopHead ∧ s.locks.count ⟨0, 0⟩ 2 = 1 := by
  obtain ⟨t, s, run, after⟩ := demo_run
    ([.createJob demoJob, .createJob demoJob, .start 0, .worker ⟨0, 0⟩ (.connect true)] ++
      demoClaim ⟨0, 0⟩ [1, 2] (some 1) ++ demoDone ⟨0, 0⟩)
    (fun out =>
      (out.1.any fun x => (step demo x.1 (.worker ⟨0, 0⟩ (.markRunning false))).isSome ∧
        (x.1.pc ⟨0, 0⟩).held? = some 1 ∧ x.1.locks.count ⟨0, 0⟩ 2 = 1) ∧
      (step demo out.2 (.worker ⟨0, 0⟩ .enterLoop)).isSome ∧ out.2.locks.count ⟨0, 0⟩ 2 = 1)
    (by decide +kernel)
  simp only [decide_eq_true_eq, List.any_eq_true] at after
  obtain ⟨⟨⟨a, e⟩, member, marks, held, scanned⟩, looks, leaks⟩ := after
  obtain ⟨job, at_⟩ := marking_of_enabled marks
  rw [at_] at held
  exact ⟨t, s, run, ⟨a, e, job, member, at_, Option.some.inj held, scanned⟩,
    loopHead_of_enabled looks, leaks⟩

end TaskQueue
