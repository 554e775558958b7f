/-
# TaskQueue.ClaimOrder -- which row a claim returns

The claim query returns the first of the rows that survive its WHERE clause and
FOR UPDATE.  It misses a row that nobody executes when another session holds that row's
advisory lock: a lock that the session took when it only scanned the row.  So claims are
in order exactly as long as no such lock hides a row ahead of every row that the
claiming session can lock.
-/
import TaskQueue.LockLeak
import TaskQueue.Change

namespace TaskQueue

set_option autoImplicit false

open Transition

/-! ## The order of the query -/

section

variable {jobs : SerialTable Job} {a b c : JobId}

theorem comesBefore_iff :
    comesBefore jobs a b = true ↔
      ∃ r r', jobs.row a = some r ∧ jobs.row b = some r' ∧
        (r'.priority.1 < r.priority.1 ∨ (r.priority.1 = r'.priority.1 ∧ r.runAt < r'.runAt)) := by
  unfold comesBefore
  cases jobs.row a <;> cases jobs.row b <;> simp

/-- `ORDER BY` is a strict weak order: what comes before `b` comes before everything
that does not come before `b`. -/
theorem comesBefore_of_not (before : comesBefore jobs a b = true)
    (there : ∃ r, jobs.row c = some r) (notBefore : ¬ comesBefore jobs c b = true) :
    comesBefore jobs a c = true := by
  rw [comesBefore_iff] at before notBefore ⊢
  obtain ⟨r, r', rowA, rowB, less⟩ := before
  obtain ⟨r'', rowC⟩ := there
  refine ⟨r, r'', rowA, rowC, ?_⟩
  have notLess : ¬ (r'.priority.1 < r''.priority.1 ∨
      (r''.priority.1 = r'.priority.1 ∧ r''.runAt < r'.runAt)) :=
    fun earlier => notBefore ⟨r'', r', rowC, rowB, earlier⟩
  rw [not_or, not_and, not_lt, not_lt] at notLess
  obtain ⟨priority, time⟩ := notLess
  rcases less with higher | ⟨same, sooner⟩
  · exact .inl (lt_of_le_of_lt priority higher)
  · rcases lt_or_eq_of_le priority with lower | equal
    · exact .inl (same ▸ lower)
    · exact .inr ⟨same.trans equal.symm, lt_of_lt_of_le sooner (time equal)⟩

end

/-! ## Rows that a claim may return -/

/-- Pending and due, for the query and for FOR UPDATE, and not locked by a transaction. -/
def OnOffer (s : Sys) (snapshot : SerialTable Job) (startedAt : Time) (plan : ClaimPlan)
    (x : JobId) : Prop :=
  eligible startedAt snapshot x = true ∧ eligible startedAt s.db.jobs x = true ∧
    x ∉ plan.rowLocked

/-- The claim returns a row that no row on offer comes before, unless a worker is between
its claim and its unlock of that one; it returns none when there is no such row. -/
def InOrder (cfg : Config) (t : History Sys Event) (s : Sys) (e : Event) : Prop :=
  ∀ w plan snapshot startedAt, e = .worker w (.claim plan) → s.pc w = .claiming snapshot startedAt →
    ∀ x, OnOffer s snapshot startedAt plan x → (∀ w', ¬ Between cfg w' x t) →
      aheadOf snapshot plan.returned x = false

/-- No row on offer is hidden: held by the session of another worker that is not between
its claim and its unlock of it, while it comes before every row that `w` can lock. -/
def NoneHidden (cfg : Config) (t : History Sys Event) (s : Sys) (e : Event) : Prop :=
  ∀ w plan snapshot startedAt, e = .worker w (.claim plan) → s.pc w = .claiming snapshot startedAt →
    ∀ x w', OnOffer s snapshot startedAt plan x → s.locks.owner x = some w' → w' ≠ w →
      (∀ y, OnOffer s snapshot startedAt plan y → s.locks.Obtainable w y →
        comesBefore snapshot x y = true) →
      Between cfg w' x t

section

variable {cfg : Config} {t₀ : Time} {db : Db} {t : History Sys Event} {s s' : Sys} {e : Event}
  {w : WorkerId} {plan : ClaimPlan} {snapshot : SerialTable Job} {startedAt : Time} {x y : JobId}

/-- A row on offer ahead of the answer has its lock in another session. -/
theorem foreign_of_ahead (admissible : plan.Admissible s.locks w startedAt snapshot s.db.jobs)
    (offer : OnOffer s snapshot startedAt plan x)
    (ahead : aheadOf snapshot plan.returned x = true) : ¬ s.locks.Obtainable w x := by
  intro free
  obtain ⟨due, still, unlocked⟩ := offer
  obtain ⟨r, row, -⟩ := eligible_iff.1 due
  obtain ⟨scanned, dropped⟩ :=
    admissible.2.2.2 x (SerialTable.mem_keys.2 ⟨r, row⟩) due ahead
  exact dropped ⟨scanned, free, unlocked, still⟩

/-- A row ahead of the answer comes before every row that the session can lock. -/
theorem ahead_of_lockable (admissible : plan.Admissible s.locks w startedAt snapshot s.db.jobs)
    (ahead : aheadOf snapshot plan.returned x = true)
    (offer : OnOffer s snapshot startedAt plan y) (free : s.locks.Obtainable w y) :
    comesBefore snapshot x y = true := by
  have notAhead : ¬ aheadOf snapshot plan.returned y = true := fun ahead' =>
    foreign_of_ahead admissible offer ahead' free
  obtain ⟨r, row, -⟩ := eligible_iff.1 offer.1
  cases answer : plan.returned with
  | none =>
      rw [answer] at notAhead
      exact absurd rfl notAhead
  | some z =>
      rw [answer] at ahead notAhead
      exact comesBefore_of_not ahead ⟨r, row⟩ notAhead

theorem claim_admissible (taken : step cfg s (.worker w (.claim plan)) = some s')
    (at_ : s.pc w = .claiming snapshot startedAt) :
    plan.Admissible s.locks w startedAt snapshot s.db.jobs := by
  cases step_taken taken with
  | worker moved =>
      simp only [Sys.runWorker, runWorker, at_, tryClaim, Option.ite_none_right_eq_some] at moved
      exact moved.1

theorem inOrder_iff (run : Runs cfg t₀ db t s) (taken : step cfg s e = some s') :
    InOrder cfg t s e ↔ NoneHidden cfg t s e := by
  constructor
  · intro order w plan snapshot startedAt event at_ x w' offer owner other first
    subst event
    by_contra idle
    -- nobody else can be between claim and unlock of `x` either: the lock has one owner
    have free : ∀ w'', ¬ Between cfg w'' x t := by
      intro w'' inside
      have same := owner_of_between run inside
      cases owner.symm.trans same
      exact idle inside
    have notAhead := order w plan snapshot startedAt rfl at_ x offer free
    have admissible := claim_admissible taken at_
    cases answer : plan.returned with
    | none =>
        rw [answer] at notAhead
        cases notAhead
    | some id =>
        obtain ⟨scanned, obtainable, unlocked, still⟩ := admissible.2.2.1 id (by simp [answer])
        have before := first id ⟨admissible.2.1 id scanned, still, unlocked⟩ obtainable
        rw [answer] at notAhead
        cases before.symm.trans notAhead
  · intro shown w plan snapshot startedAt event at_ x offer free
    subst event
    by_contra ahead
    rw [Bool.not_eq_false] at ahead
    have admissible := claim_admissible taken at_
    have held := foreign_of_ahead admissible offer ahead
    rw [SessionLock.Locks.Obtainable, not_or] at held
    obtain ⟨w', owner⟩ := Option.ne_none_iff_exists'.1 held.1
    have other : w' ≠ w := fun same => held.2 (same ▸ owner)
    refine free w' (shown w plan snapshot startedAt rfl at_ x w' offer owner other fun y => ?_)
    exact ahead_of_lockable admissible ahead

end

/-- **When claims are in order.**  In a run every claim returns a row that no row on
offer comes before, other than rows in execution, and none only when there is no such
row, exactly when no claim meets a hidden row: one whose advisory lock another session
holds without executing it, ahead of every row that the claim can lock. -/
theorem claim_order_iff (cfg : Config) (t₀ : Time) (db : Db) {t : History Sys Event} {s : Sys}
    (run : Runs cfg t₀ db t s) :
    EachStep (InOrder cfg) t ↔ EachStep (NoneHidden cfg) t :=
  run.eachStep_iff fun _ _ _ _ before taken => inOrder_iff before taken

/-! ## Runs of one worker -/

section

variable {cfg : Config} {t₀ : Time} {db : Db} {t : History Sys Event} {s : Sys} {w₀ : WorkerId}

/-- A session takes locks only in a step of its worker. -/
theorem worker_of_owner (run : Runs cfg t₀ db t s) {x : JobId} {w : WorkerId} :
    s.locks.owner x = some w → ∃ a act, (a, .worker w act) ∈ t := by
  refine run.invariant (P := fun t s => s.locks.owner x = some w →
    ∃ a act, (a, .worker w act) ∈ t) (fun owner => by cases owner) ?_
  intro t s e s' _ ih taken owner
  have earlier (before : s.locks.owner x = some w) :
      ∃ a act, (a, .worker w act) ∈ (s, e) :: t := by
    obtain ⟨a, act, member⟩ := ih before
    exact ⟨a, act, List.mem_cons_of_mem _ member⟩
  cases worker_step taken w with
  | @moves act _ now _ _ _ =>
      subst now
      exact ⟨s, act, List.mem_cons_self⟩
  | stays _ _ _ locks => exact earlier ((SessionLock.Locks.owner_congr locks).1 owner)
  | spawns _ _ locks => exact earlier ((SessionLock.Locks.owner_congr locks).1 owner)
  | dies _ _ locks =>
      have held := SessionLock.Locks.count_pos_iff.2 owner
      rw [locks] at held
      cases held

theorem noneHidden_of_only (run : Runs cfg t₀ db t s)
    (only : ∀ a w act, (a, .worker w act) ∈ t → w = w₀) : EachStep (NoneHidden cfg) t := by
  induction run with
  | nil => trivial
  | @snoc t s s' e before taken ih =>
      have only' : ∀ a w act, (a, .worker w act) ∈ t → w = w₀ := fun a w act member =>
        only a w act (List.mem_cons_of_mem _ member)
      refine ⟨?_, ih only'⟩
      rintro w plan snapshot startedAt rfl - x w' - owner other -
      obtain ⟨a, act, member⟩ := worker_of_owner before owner
      have mine := only s w _ List.mem_cons_self
      exact absurd ((only' a w' act member).trans mine.symm) other

end

def demoUrgent : JobCreate := { demoJob with priority := ⟨9, by decide⟩ }

/-- The job with priority 9 is claimed before the older one with priority 5. -/
theorem claim_order_priority :
    ∃ t s, Runs demo 0 .empty t s ∧ EachStep (InOrder demo) t ∧ Executes s ⟨0, 0⟩ 2 := by
  obtain ⟨t, s, run, after⟩ := demo_run
    ([.createJob demoJob, .createJob demoUrgent, .start 0, .worker ⟨0, 0⟩ (.connect true)] ++
      demoClaim ⟨0, 0⟩ [2] (some 2))
    (fun out => onlyWorker ⟨0, 0⟩ out.1 ∧ (out.2.stages ⟨0, 0⟩).job?.any fun job => job.id = 2)
    (by decide +kernel)
  simp only [decide_eq_true_eq, Option.any_eq_true] at after
  obtain ⟨only, executes⟩ := after
  have order := (claim_order_iff demo 0 .empty run).2
    (noneHidden_of_only run (only_of_onlyWorker only))
  exact ⟨t, s, run, order, executes⟩

/-- The snapshot and the `NOW()` of a claim in progress. -/
def Pc.claiming? : Pc → Option (SerialTable Job × Time)
  | .claiming snapshot startedAt => some (snapshot, startedAt)
  | _ => none

theorem Pc.claiming_of_some {pc : Pc} {snapshot : SerialTable Job} {startedAt : Time}
    (claiming : pc.claiming? = some (snapshot, startedAt)) :
    pc = .claiming snapshot startedAt := by
  cases pc <;> simp_all [Pc.claiming?]

/-- The row that a claim returns. -/
def Event.returned? : Event → Option JobId
  | .worker _ (.claim plan) => plan.returned
  | _ => none

/-- Two jobs are due.  The first worker scans both and claims job 1; the second worker is
told that there is no job, while job 2 is on offer and nobody executes it. -/
theorem claim_misses_leaked :
    ∃ t s plan snapshot startedAt, Runs demo 0 .empty t s ∧
      s.pc ⟨0, 1⟩ = .claiming snapshot startedAt ∧
      (step demo s (.worker ⟨0, 1⟩ (.claim plan))).isSome ∧ plan.returned = none ∧
      OnOffer s snapshot startedAt plan 2 ∧ ∀ w, ¬ Between demo w 2 t := by
  obtain ⟨t, s, run, after⟩ := demo_run
    ([.createJob demoJob, .createJob demoJob, .start 0, .worker ⟨0, 0⟩ (.connect true),
        .worker ⟨0, 1⟩ (.connect true)] ++ demoClaim ⟨0, 0⟩ [1, 2] (some 1) ++
      [.worker ⟨0, 1⟩ .enterLoop, .worker ⟨0, 1⟩ .select])
    (fun out =>
      ((out.2.pc ⟨0, 1⟩).claiming?.any fun x =>
        (demoPlan [2] none).Admissible out.2.locks ⟨0, 1⟩ x.2 x.1 out.2.db.jobs ∧
          eligible x.2 x.1 2 ∧ eligible x.2 out.2.db.jobs 2) ∧
        out.1.all fun x => x.2.returned? ≠ some 2)
    (by decide +kernel)
  simp only [decide_eq_true_eq, Option.any_eq_true, List.all_eq_true] at after
  obtain ⟨⟨⟨snapshot, startedAt⟩, claiming, admissible, due, still⟩, unclaimed⟩ := after
  have at_ := Pc.claiming_of_some claiming
  refine ⟨t, s, demoPlan [2] none, snapshot, startedAt, run, at_, ?_, rfl,
    ⟨due, still, by simp [demoPlan]⟩, fun w inside => ?_⟩
  · have answer : (demoPlan [2] none).returned = none := rfl
    simp [step, control, Sys.runWorker, runWorker, at_, tryClaim, admissible, answer]
  · obtain ⟨a, plan, member, returned⟩ := claims_of_between run inside
    exact unclaimed _ member returned

end TaskQueue
